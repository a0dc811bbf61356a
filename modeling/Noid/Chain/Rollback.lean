import Noid.Chain.SegmentedInvariant

/-! # Rolling a state back across an expansion

A reorganization that crosses an expansion block calls `shrinkToLogSlots` once per reverted block.  Every round of the
shrink loop first flushes all commitment-dirty segments, and the flush asserts that none of them is evicted.  Dirty marks
outlive eviction on purpose, and a startup image marks every live segment both evicted and dirty, so this can fail. -/

namespace Noid.Chain

open Noid.Lib List SegmentedFriState

namespace SegmentedFriState

structure KeepsRetained (s s' : SegmentedFriState) : Prop where
  columns : ∀ id < s'.numSegments, s'.columns id = s.columns id
  live : ∀ id < s'.numSegments, s'.segmentLiveCount id = s.segmentLiveCount id
  residency : ∀ id < s'.numSegments, s'.isEvicted id = s.isEvicted id

/-- The same slots, domain, live counts and evicted set. -/
structure SameDomain (a b : SegmentedFriState) : Prop where
  logSlots : a.logSlots = b.logSlots
  numSegments : a.numSegments = b.numSegments
  liveCounts : a.liveCounts = b.liveCounts
  evicted : ∀ id, id ∈ a.evicted ↔ id ∈ b.evicted
  slot : ∀ idx, a.slot idx = b.slot idx

/-- The rollback to `target` completes and agrees with the exact-only one. -/
def RollsBack (H : SegmentHash) (s : SegmentedFriState) (target : ℕ) : Prop :=
  ∃ s', s.shrinkToLogSlots H target = some (.ok (), s') ∧ s'.logSlots = target ∧ KeepsRetained s s' ∧
    ∃ e, s.shrinkExactMetadataToLogSlots target = (.ok (), e) ∧ SameDomain s' e

/-- Every segment a shrink to `target` discards is empty and not evicted. -/
def UpperEmpty (s : SegmentedFriState) (target : ℕ) : Prop :=
  ∀ id, segmentCount target ≤ id → id < s.numSegments → s.segmentLiveCount id = 0 ∧ id ∉ s.evicted

section Rollback

variable {H : SegmentHash} {s s' : SegmentedFriState} {target : ℕ}

lemma upperFault_eq_none {busy : ℕ → Bool} {lo hi : ℕ}
    (h : ∀ id, lo ≤ id → id < hi → id ∉ s.evicted ∧ busy id = false) :
    s.upperFault busy lo hi = none := by
  unfold upperFault
  rw [findSome?_eq_none_iff]
  intro id hid
  rw [mem_range'_1] at hid
  obtain ⟨he, hb⟩ := h id hid.1 (by omega)
  simp [he, hb]

/-- What remains of a state after its upper segments are dropped. -/
structure DroppedTo (s s' : SegmentedFriState) : Prop where
  count_le : s'.numSegments ≤ s.numSegments
  segments : s'.segments = s.segments.take s'.numSegments
  liveCounts : s'.liveCounts = s.liveCounts.take s'.numSegments
  evicted : ∀ id, id ∈ s'.evicted ↔ id ∈ s.evicted ∧ id < s'.numSegments
  dirty : ∀ id ∈ s'.dirty, id ∈ s.dirty
  effective : s'.effectiveLogSeg = s.effectiveLogSeg

lemma DroppedTo.refl (hw : s.Wf) : DroppedTo s s :=
  ⟨le_rfl, by rw [take_of_length_le hw.segments_length.le], by rw [take_of_length_le hw.liveCounts_length.le],
    fun id => ⟨fun h => ⟨h, hw.evicted_lt id h⟩, And.left⟩, fun _ h => h, rfl⟩

lemma DroppedTo.trans {a b c : SegmentedFriState} (h : DroppedTo a b) (h' : DroppedTo b c) :
    DroppedTo a c := by
  refine ⟨h'.count_le.trans h.count_le, ?_, ?_, ?_, fun id hid => h.dirty id (h'.dirty id hid),
    h'.effective.trans h.effective⟩
  · rw [h'.segments, h.segments, take_take, min_eq_left h'.count_le]
  · rw [h'.liveCounts, h.liveCounts, take_take, min_eq_left h'.count_le]
  · intro id
    rw [h'.evicted, h.evicted]
    have := h'.count_le
    constructor
    · rintro ⟨⟨h1, -⟩, h2⟩
      exact ⟨h1, h2⟩
    · rintro ⟨h1, h2⟩
      exact ⟨⟨h1, by omega⟩, h2⟩

lemma SameData.droppedTo (hw : s.Wf) (h : SameData s s') : DroppedTo s s' := by
  have hr := DroppedTo.refl hw
  exact ⟨h.numSegments.le, by rw [h.segments, h.numSegments]; exact hr.segments,
    by rw [h.liveCounts, h.numSegments]; exact hr.liveCounts,
    by rw [h.evicted, h.numSegments]; exact hr.evicted, h.dirty, h.effectiveLogSeg⟩

lemma DroppedTo.columns (h : DroppedTo s s') {id : ℕ} (hid : id < s'.numSegments) :
    s'.columns id = s.columns id := by
  simp [SegmentedFriState.columns, h.segments, hid]

lemma DroppedTo.live (h : DroppedTo s s') {id : ℕ} (hid : id < s'.numSegments) :
    s'.segmentLiveCount id = s.segmentLiveCount id := by
  simp [segmentLiveCount, h.liveCounts, hid]

lemma DroppedTo.keepsRetained (h : DroppedTo s s') : KeepsRetained s s' where
  columns _ hid := h.columns hid
  live _ hid := h.live hid
  residency id hid := by
    rw [Bool.eq_iff_iff]
    simp only [isEvicted, contains_iff_mem, h.evicted]
    exact ⟨And.left, fun he => ⟨he, hid⟩⟩

lemma DroppedTo.noOverlap (h : DroppedTo s s') (hno : ∀ id ∈ s.dirty, id ∉ s.evicted) :
    ∀ id ∈ s'.dirty, id ∉ s'.evicted :=
  fun id hd he => hno id (h.dirty id hd) ((h.evicted id).mp he).1

lemma dropSegments_droppedTo (log : ℕ) {n : ℕ} (hn : n ≤ s.numSegments) :
    DroppedTo s (s.dropSegments log n) where
  count_le := hn
  segments := rfl
  liveCounts := rfl
  evicted _ := IdSet.mem_retainBelow
  dirty _ h := (IdSet.mem_retainBelow.mp h).1
  effective := rfl

lemma retainBelow_lt {ids : List ℕ} {n : ℕ} : ∀ id ∈ IdSet.retainBelow ids n, id < n :=
  fun _ h => (IdSet.mem_retainBelow.mp h).2

/-- Dropping to a smaller production depth, with any tree of the right size, keeps the invariant. -/
theorem dropSegments_wf (hw : s.Wf) {log : ℕ} (hlog : LOG_SEGMENT_SIZE ≤ log) (hle : log ≤ s.logSlots)
    {tree : List Digest} {treeDirty : Bool} {leaves : List ℕ}
    (ht : tree.length = 2 * segmentCount log + 1) (hl : ∀ id ∈ leaves, id < segmentCount log)
    (hn : segmentCount log ≤ s.numSegments) :
    ({ s.dropSegments log (segmentCount log) with
        tree := tree, treeDirty := treeDirty, dirtyTreeLeaves := leaves } : SegmentedFriState).Wf where
  log_pos := le_trans (by decide) hlog
  effective := by
    show s.effectiveLogSeg = min log LOG_SEGMENT_SIZE
    rw [hw.effective, min_eq_right (hlog.trans hle), min_eq_right hlog]
  count := rfl
  segments_length := by simp [dropSegments, hw.segments_length, hn]
  segRoots_length := by simp [dropSegments, hw.segRoots_length, hn]
  liveCounts_length := by simp [dropSegments, hw.liveCounts_length, hn]
  tree_length := ht
  dirty_lt := retainBelow_lt
  evicted_lt := retainBelow_lt
  leaves_lt := hl
  live_of_columns id cols h := by
    by_cases hid : id < segmentCount log
    · have hd := dropSegments_droppedTo log hn
      have hc : s.columns id = some cols := by rw [← hd.columns hid]; exact h
      exact fun hz => hw.live_of_columns id cols hc (by rw [← hd.live hid]; exact hz)
    · simp [columns, dropSegments, hid] at h

lemma shrinkHalf_ok (hw : s.Wf) (hlog : LOG_SEGMENT_SIZE < s.logSlots) (hup : UpperEmpty s (s.logSlots - 1)) :
    ∃ s', s.shrinkHalf H = some (.ok (), s') ∧ s'.Wf ∧ s'.logSlots = s.logSlots - 1 ∧ DroppedTo s s' := by
  have hcount : s.numSegments = 2 * segmentCount (s.logSlots - 1) := by
    rw [hw.count, ← segmentCount_succ (by omega), Nat.sub_add_cancel hw.log_pos]
  have hhalf : s.numSegments / 2 = segmentCount (s.logSlots - 1) := by omega
  obtain ⟨tree, ht, hl⟩ := rebuildTree?_ok H (segmentCount (s.logSlots - 1))
    (s.segRoots.take (segmentCount (s.logSlots - 1))) (H.zeroSegRootFor s.effectiveLogSeg)
    (by simp [hw.segRoots_length]; omega)
  unfold shrinkHalf
  simp only [hhalf]
  rw [upperFault_eq_none (fun id h1 h2 => by
    obtain ⟨h, he⟩ := hup id h1 h2
    exact ⟨he, by simp [h]⟩), ht]
  have hn : segmentCount (s.logSlots - 1) ≤ s.numSegments := by omega
  refine ⟨_, rfl, ?_, rfl, { dropSegments_droppedTo (s.logSlots - 1) hn with }⟩
  exact dropSegments_wf hw (by omega) (Nat.sub_le _ _) hl retainBelow_lt hn

lemma UpperEmpty.droppedTo (hup : UpperEmpty s target) (h : DroppedTo s s') : UpperEmpty s' target := by
  intro id h1 h2
  obtain ⟨hl, he⟩ := hup id h1 (lt_of_lt_of_le h2 h.count_le)
  exact ⟨(h.live h2).trans hl, fun h' => he ((h.evicted id).mp h').1⟩

lemma segmentCount_mono {a b : ℕ} (h : a ≤ b) : segmentCount a ≤ segmentCount b := by
  unfold segmentCount
  split_ifs with ha hb
  · exact Nat.pow_le_pow_right (by decide) (by omega)
  · omega
  · exact Nat.two_pow_pos _
  · exact le_rfl

lemma shrinkLoop_ok (ht : LOG_SEGMENT_SIZE ≤ target) :
    ∀ (fuel : ℕ) (s : SegmentedFriState), s.Wf → (∀ id ∈ s.dirty, id ∉ s.evicted) →
      UpperEmpty s target → s.logSlots = target + fuel →
      ∃ s', s.shrinkLoop H target fuel = some (.ok (), s') ∧ s'.Wf ∧ s'.logSlots = target ∧ DroppedTo s s'
  | 0, s, hw, _, _, hlog => ⟨s, rfl, hw, hlog, DroppedTo.refl hw⟩
  | fuel + 1, s, hw, hno, hup, hlog => by
    obtain ⟨s1, h1, hw1, hsame⟩ := flushAllDirty_ok (H := H) hw hno
    have hd1 := hsame.droppedTo hw
    have hlog1 : s1.logSlots = target + (fuel + 1) := hsame.logSlots.trans hlog
    have hup1 : UpperEmpty s1 (s1.logSlots - 1) := fun id hid =>
      hup.droppedTo hd1 id ((segmentCount_mono (by omega)).trans hid)
    obtain ⟨s2, h2, hw2, hlog2, hd2⟩ := shrinkHalf_ok (H := H) hw1 (by omega) hup1
    have hstep : s.shrinkStep H = some (.ok (), s2) := by
      unfold shrinkStep
      rw [h1]
      show (if s1.logSlots ≤ LOG_SEGMENT_SIZE then _ else _) = _
      rw [if_neg (by omega), h2]
    have hd := hd1.trans hd2
    obtain ⟨s3, h3, hw3, hlog3, hd3⟩ := shrinkLoop_ok ht fuel s2 hw2 (hd.noOverlap hno)
      (hup.droppedTo hd) (by omega)
    refine ⟨s3, ?_, hw3, hlog3, hd.trans hd3⟩
    unfold shrinkLoop
    rw [if_neg (by omega), hstep]
    exact h3

lemma shrinkToLogSlots_panics (ht : 1 ≤ target) (hlt : target < s.logSlots) {id : ℕ}
    (hd : id ∈ s.dirty) (he : id ∈ s.evicted) : s.shrinkToLogSlots H target = none := by
  obtain ⟨fuel, hfuel⟩ : ∃ fuel, s.logSlots - target = fuel + 1 := ⟨s.logSlots - target - 1, by omega⟩
  unfold shrinkToLogSlots
  rw [if_neg (by omega), hfuel]
  unfold shrinkLoop shrinkStep
  rw [if_neg (by omega), flushAllDirty_panics hd he]
  rfl

lemma shrinkExactMetadata_ok (hw : s.Wf) (ht : LOG_SEGMENT_SIZE ≤ target) (hle : target ≤ s.logSlots)
    (hup : UpperEmpty s target) :
    ∃ e, s.shrinkExactMetadataToLogSlots target = (.ok (), e) ∧ e.logSlots = target ∧
      e.numSegments = segmentCount target ∧ DroppedTo s e := by
  unfold shrinkExactMetadataToLogSlots
  split_ifs with heq hbad
  · exact ⟨s, rfl, heq.symm, by rw [hw.count, heq], DroppedTo.refl hw⟩
  · exfalso
    rw [hw.effective, min_eq_right (ht.trans hle)] at hbad
    omega
  · have hn : segmentCount target ≤ s.numSegments := by
      rw [hw.count]
      exact segmentCount_mono hle
    rw [← segmentCount_of_ge ht]
    simp only
    rw [upperFault_eq_none (fun id h1 h2 => by
      obtain ⟨hl, he⟩ := hup id h1 h2
      refine ⟨he, ?_⟩
      cases hc : s.columns id with
      | none => simp [hl]
      | some cols => exact absurd hl (hw.live_of_columns id cols hc))]
    exact ⟨_, rfl, rfl, rfl, { dropSegments_droppedTo target hn with }⟩

lemma sameDomain_of_droppedTo {e : SegmentedFriState} (hs : DroppedTo s s') (he : DroppedTo s e)
    (hlog : s'.logSlots = e.logSlots) (hn : s'.numSegments = e.numSegments) : SameDomain s' e where
  logSlots := hlog
  numSegments := hn
  liveCounts := by rw [hs.liveCounts, he.liveCounts, hn]
  evicted id := by rw [hs.evicted, he.evicted, hn]
  slot idx := by
    have hcols : ∀ id, s'.columns id = e.columns id := fun id => by
      rw [columns, columns, hs.segments, he.segments, hn]
    simp only [slot, segIdOf, localIdxOf, hs.effective, he.effective, hcols]

end Rollback

end SegmentedFriState

open SegmentedFriState in
/-- **A rollback over empty upper segments completes exactly when there is nothing to shrink or
no commitment-dirty segment is evicted.** -/
theorem rollsBack_iff (H : SegmentHash) (s : SegmentedFriState) (target : ℕ) (hs : SegReachable H s)
    (ht : LOG_SEGMENT_SIZE ≤ target) (hle : target ≤ s.logSlots) (hup : UpperEmpty s target) :
    RollsBack H s target ↔ target = s.logSlots ∨ ∀ id ∈ s.dirty, id ∉ s.evicted := by
  have hw := hs.wf
  have hpos : 1 ≤ target := le_trans (by decide) ht
  obtain ⟨e, he, hlogE, hnE, hdE⟩ := shrinkExactMetadata_ok hw ht hle hup
  constructor
  · rintro ⟨s', h, -⟩
    by_contra hneg
    push Not at hneg
    obtain ⟨hne, id, hd, hev⟩ := hneg
    rw [shrinkToLogSlots_panics hpos (lt_of_le_of_ne hle hne) hd hev] at h
    cases h
  · intro hcond
    -- in both cases the loop ends at the target with a dropped state
    obtain ⟨s', h, hw', hlog, hd⟩ :
        ∃ s', s.shrinkToLogSlots H target = some (.ok (), s') ∧ s'.Wf ∧ s'.logSlots = target ∧ DroppedTo s s' := by
      unfold shrinkToLogSlots
      rw [if_neg (by omega)]
      rcases hcond with heq | hno
      · exact ⟨s, by rw [← heq, Nat.sub_self]; rfl, hw, heq.symm, DroppedTo.refl hw⟩
      · exact shrinkLoop_ok ht _ s hw hno hup (by omega)
    refine ⟨s', h, hlog, hd.keepsRetained, e, he, sameDomain_of_droppedTo hd hdE ?_ ?_⟩
    · rw [hlog, hlogE]
    · rw [hw'.count, hlog, hnE]

/-- Hash functions that ignore their arguments, to run the model on. -/
def SegmentHash.const : SegmentHash := ⟨fun _ _ => 0, fun _ _ => 0⟩

/-- A block writes one slot; the state is committed, persisted and evicted. -/
def persistedOps : List SegOp :=
  [.applyDeltaUnrooted [(3, ⟨5, 1, 7⟩)], .root, .clearDirty, .evictCleanSegments]

theorem rollsBack_evicted :
    ∃ s0 s, SegmentedFriState.newEmpty SegmentHash.const 17 = some s0 ∧
      runOps (SegOp.apply SegmentHash.const) s0 persistedOps = some s ∧ s.evicted = [0] ∧ s.liveCounts = [1, 0] ∧
      SegmentedFriState.RollsBack SegmentHash.const s 16 := by
  obtain ⟨s0, hs0⟩ : ∃ s0, newEmpty SegmentHash.const 17 = some s0 := ⟨_, rfl⟩
  have hrun : (runOps (SegOp.apply SegmentHash.const) s0 persistedOps).map
      (fun s => (s.logSlots, s.evicted, s.liveCounts, s.dirty)) = some (17, [0], [1, 0], []) := by
    cases hs0
    decide +kernel
  obtain ⟨s, hs, hfields⟩ := Option.map_eq_some_iff.mp hrun
  simp only [Prod.mk.injEq] at hfields
  obtain ⟨hlog, hevicted, hlive, hdirty⟩ := hfields
  have hreach : SegReachable SegmentHash.const s := (Reachable.start ⟨17, by decide, hs0⟩).runOps hs
  have hup : UpperEmpty s 16 := by
    intro id h1 h2
    rw [hreach.wf.count, hlog] at h2
    obtain rfl : id = 1 := le_antisymm (Nat.le_of_lt_succ h2) h1
    simp [segmentLiveCount, hlive, hevicted]
  refine ⟨s0, s, hs0, hs, hevicted, hlive, (rollsBack_iff _ s 16 hreach (by decide) (by omega) hup).mpr (.inr ?_)⟩
  simp [hdirty]

/-- **Right after startup a reorganization across an expansion panics**: the lower segment is a durable summary, which
cannot be hashed. -/
theorem startup_image_shrink_panics : ∃ s0 s, SegmentedFriState.newEmpty SegmentHash.const 17 = some s0 ∧
    runOps (SegOp.apply SegmentHash.const) s0 [.installEvictedExactSummary 0 1, .finishEvictedExactSummaries] = some s ∧
    SegReachable SegmentHash.const s ∧ s.logSlots = 17 ∧ SegmentedFriState.UpperEmpty s 16 ∧
    s.shrinkToLogSlots SegmentHash.const 16 = none ∧ (s.shrinkExactMetadataToLogSlots 16).1 = .ok () := by
  refine ⟨_, _, rfl, rfl, ?_, rfl, ?_, rfl, rfl⟩
  · refine .next SegOp.finishEvictedExactSummaries (.next (SegOp.installEvictedExactSummary 0 1)
      (.start ⟨17, by decide, rfl⟩) rfl) rfl
  · intro id h1 h2
    obtain rfl : id = 1 := le_antisymm (Nat.le_of_lt_succ h2) h1
    exact ⟨rfl, show 1 ∉ [0] by decide⟩

end Noid.Chain
