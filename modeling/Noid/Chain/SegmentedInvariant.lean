import Noid.Chain.SegmentedResize

/-! # The invariant of the segmented state

The vectors have one entry per segment, every recorded id names a segment, and only live segments carry columns.  The
commitment flush changes commitments and commitment-dirty marks only, and panics when a dirty segment is evicted. -/

namespace Noid.Chain

open Noid.Lib List

/-! ### Vectors -/

lemma setAt?_of_lt {α : Type} {l : List α} {i : ℕ} (a : α) (h : i < l.length) :
    setAt? l i a = some (l.set i a) := if_pos h

lemma hashNode?_of_lt (H : SegmentHash) {tree : List Digest} {k : ℕ} (h : 2 * k + 1 < tree.length) :
    ∃ tree', hashNode? H tree k = some tree' ∧ tree'.length = tree.length := by
  have h1 : tree[2 * k]? = some tree[2 * k] := getElem?_eq_getElem (by omega)
  have h2 : tree[2 * k + 1]? = some tree[2 * k + 1] := getElem?_eq_getElem h
  refine ⟨tree.set k (H.compress tree[2 * k] tree[2 * k + 1]), ?_, by simp⟩
  simp [hashNode?, h1, h2, setAt?_of_lt _ (show k < tree.length by omega)]

lemma foldlM_hashNode?_ok (H : SegmentHash) (nodes : List ℕ) (tree : List Digest)
    (h : ∀ k ∈ nodes, 2 * k + 1 < tree.length) :
    ∃ tree', nodes.foldlM (hashNode? H) tree = some tree' ∧ tree'.length = tree.length := by
  refine foldlM_option_of_inv (P := fun t => t.length = tree.length) nodes tree rfl ?_
  intro t k hk ht
  obtain ⟨t', h1, h2⟩ := hashNode?_of_lt H (show 2 * k + 1 < t.length by have := h k hk; omega)
  exact ⟨t', h1, by omega⟩

lemma hashAll?_ok (H : SegmentHash) (n : ℕ) (tree : List Digest) (h : tree.length = 2 * n + 1) :
    ∃ tree', hashAll? H n tree = some tree' ∧ tree'.length = tree.length := by
  refine foldlM_hashNode?_ok H _ tree ?_
  intro k hk
  simp only [mem_reverse, mem_range'_1] at hk
  omega

lemma rebuildTree?_ok (H : SegmentHash) (n : ℕ) (segRoots : List (Option Digest)) (z : Digest)
    (h : segRoots.length = n) :
    ∃ tree, rebuildTree? H n segRoots z = some tree ∧ tree.length = 2 * n + 1 := by
  obtain ⟨leaves, h1, h2⟩ := foldlM_option_of_inv (P := fun t : List Digest => t.length = 2 * n + 1)
    (f := fun tree i => do
      let root ← segRoots[i]?
      setAt? tree (n + i) (root.getD z)) (range n) (replicate (2 * n + 1) 0)
    (by simp) (by
      intro t i hi ht
      have hi : i < n := mem_range.mp hi
      have hr : segRoots[i]? = some segRoots[i] := getElem?_eq_getElem (by omega)
      exact ⟨t.set (n + i) (segRoots[i].getD z),
        by simp [hr, setAt?_of_lt _ (show n + i < t.length by omega)], by simpa using ht⟩)
  obtain ⟨tree, h3, h4⟩ := hashAll?_ok H n leaves h2
  refine ⟨tree, ?_, by omega⟩
  unfold rebuildTree?
  rw [h1]
  exact h3

lemma resizeVec_of_le {α : Type} (l : List α) (a : α) {n : ℕ} (h : l.length ≤ n) :
    resizeVec l n a = l ++ replicate (n - l.length) a := by
  rw [resizeVec, take_of_length_le h]

lemma join_append_replicate_none {α : Type} (l : List (Option α)) (k i : ℕ) :
    ((l ++ replicate k none)[i]?).join = (l[i]?).join := by
  by_cases hi : i < l.length
  · rw [getElem?_append_left hi]
  · rw [getElem?_append_right (by omega), getElem?_eq_none (l := l) (by omega), getElem?_replicate]
    split_ifs <;> rfl

lemma getD_append_replicate (l : List ℕ) (k i : ℕ) : ((l ++ replicate k 0)[i]?).getD 0 = (l[i]?).getD 0 := by
  by_cases hi : i < l.length
  · rw [getElem?_append_left hi]
  · rw [getElem?_append_right (by omega), getElem?_eq_none (l := l) (by omega), getElem?_replicate]
    split_ifs <;> rfl

lemma mem_ancestors {fuel k a : ℕ} (h : a ∈ ancestors fuel k) : 1 ≤ a ∧ a ≤ k / 2 := by
  induction fuel generalizing k with
  | zero => simp [ancestors] at h
  | succ fuel ih =>
    unfold ancestors at h
    split_ifs at h with h₀ h1
    · simp at h
    · simp only [mem_singleton] at h
      omega
    · rcases mem_cons.mp h with rfl | h
      · omega
      · have := ih h
        omega

namespace SegmentedFriState

/-! ### The invariant -/

lemma segmentCount_succ {log : ℕ} (h : LOG_SEGMENT_SIZE ≤ log) :
    segmentCount (log + 1) = 2 * segmentCount log := by
  unfold segmentCount LOG_SEGMENT_SIZE at *
  rw [if_pos (by omega)]
  split_ifs with h'
  · rw [show log + 1 - 16 = (log - 16) + 1 by omega, Nat.pow_succ]
    ring
  · have hone : log + 1 - 16 = 1 := by omega
    simp [hone]

lemma segmentCount_of_le {log : ℕ} (h : log ≤ LOG_SEGMENT_SIZE) : segmentCount log = 1 :=
  if_neg (by omega)

lemma segmentCount_of_ge {log : ℕ} (h : LOG_SEGMENT_SIZE ≤ log) :
    segmentCount log = 2 ^ (log - LOG_SEGMENT_SIZE) := by
  unfold segmentCount
  split_ifs with h'
  · rfl
  · rw [show log - LOG_SEGMENT_SIZE = 0 by omega]
    rfl

/-- One entry per segment, ids that name segments, and columns only where something is live. -/
structure Wf (s : SegmentedFriState) : Prop where
  log_pos : 1 ≤ s.logSlots
  effective : s.effectiveLogSeg = min s.logSlots LOG_SEGMENT_SIZE
  count : s.numSegments = segmentCount s.logSlots
  segments_length : s.segments.length = s.numSegments
  segRoots_length : s.segRoots.length = s.numSegments
  liveCounts_length : s.liveCounts.length = s.numSegments
  tree_length : s.tree.length = 2 * s.numSegments + 1
  dirty_lt : ∀ id ∈ s.dirty, id < s.numSegments
  evicted_lt : ∀ id ∈ s.evicted, id < s.numSegments
  leaves_lt : ∀ id ∈ s.dirtyTreeLeaves, id < s.numSegments
  live_of_columns : ∀ id cols, s.columns id = some cols → s.segmentLiveCount id ≠ 0

/-- Everything but the commitments and the commitment-dirty marks is the same. -/
structure SameData (s s' : SegmentedFriState) : Prop where
  logSlots : s'.logSlots = s.logSlots
  effectiveLogSeg : s'.effectiveLogSeg = s.effectiveLogSeg
  numSegments : s'.numSegments = s.numSegments
  segments : s'.segments = s.segments
  liveCounts : s'.liveCounts = s.liveCounts
  evicted : s'.evicted = s.evicted
  mdbxDirty : s'.mdbxDirty = s.mdbxDirty
  exactDirty : s'.exactDirty = s.exactDirty
  dirty : ∀ id ∈ s'.dirty, id ∈ s.dirty

lemma SameData.refl (s : SegmentedFriState) : SameData s s :=
  ⟨rfl, rfl, rfl, rfl, rfl, rfl, rfl, rfl, fun _ h => h⟩

lemma SameData.trans {a b c : SegmentedFriState} (h : SameData a b) (h' : SameData b c) :
    SameData a c :=
  ⟨h'.logSlots.trans h.logSlots, h'.effectiveLogSeg.trans h.effectiveLogSeg,
    h'.numSegments.trans h.numSegments, h'.segments.trans h.segments,
    h'.liveCounts.trans h.liveCounts, h'.evicted.trans h.evicted, h'.mdbxDirty.trans h.mdbxDirty,
    h'.exactDirty.trans h.exactDirty, fun id hid => h.dirty id (h'.dirty id hid)⟩

/-! ### Flushing commitments -/

section Flush

variable {H : SegmentHash} {s s' : SegmentedFriState} {id : ℕ}

lemma flushSegment_panics (hd : id ∈ s.dirty) (he : id ∈ s.evicted) :
    s.flushSegment H id = none := by
  unfold flushSegment
  cases s.segRoots[id]? with
  | none => rfl
  | some cached => simp [hd, he]

lemma setLeaf_frame {root : Digest} (h : s.setLeaf id root = some s') : SameData s s' ∧ s'.dirty = s.dirty := by
  unfold setLeaf at h
  split_ifs at h with hn
  · cases h
    exact ⟨SameData.refl s, rfl⟩
  · obtain ⟨tree, -, rfl⟩ := Option.map_eq_some_iff.mp h
    exact ⟨{ SameData.refl s with }, rfl⟩

lemma installRoot_frame {root : Digest} (h : s.installRoot id root = some s') :
    SameData s s' ∧ ∀ x ∈ s.dirty, x ≠ id → x ∈ s'.dirty := by
  obtain ⟨hsame, hdirty⟩ := setLeaf_frame h
  refine ⟨{ hsame with dirty := fun x hx => (IdSet.mem_remove.mp (hsame.dirty x hx)).1 }, fun x hx hne => ?_⟩
  rw [hdirty]
  exact IdSet.mem_remove.mpr ⟨hx, hne⟩

lemma flushSegment_frame (h : s.flushSegment H id = some s') :
    SameData s s' ∧ ∀ x ∈ s.dirty, x ≠ id → x ∈ s'.dirty := by
  unfold flushSegment at h
  cases hr : s.segRoots[id]? with
  | none => simp [hr] at h
  | some cached =>
    simp only [hr] at h
    split_ifs at h with hclean
    · cases h
      exact ⟨SameData.refl _, fun x hx _ => hx⟩
    · cases hc : s.segments[id]? with
      | none => simp [hc] at h
      | some cols => exact installRoot_frame (by simpa [hc] using h)

lemma insert_lt {ids : List ℕ} {id n : ℕ} (hid : id < n) (h : ∀ x ∈ ids, x < n) :
    ∀ x ∈ ids.insert id, x < n := by
  intro x hx
  rcases mem_insert_iff.mp hx with rfl | hx
  · exact hid
  · exact h x hx

lemma remove_lt {ids : List ℕ} {id n : ℕ} (h : ∀ x ∈ ids, x < n) :
    ∀ x ∈ IdSet.remove ids id, x < n :=
  fun x hx => h x (IdSet.mem_remove.mp hx).1

lemma marked_lt {ids : List ℕ} {id n : ℕ} (hid : id < n) (h : ∀ x ∈ ids, x < n) {c : Prop} [Decidable c] :
    ∀ x ∈ if c then IdSet.remove ids id else ids.insert id, x < n := by
  split_ifs
  · exact remove_lt h
  · exact insert_lt hid h

lemma setLeaf_ok (hw : s.Wf) (hid : id < s.numSegments) (root : Digest) : ∃ s', s.setLeaf id root = some s' ∧ s'.Wf := by
  unfold setLeaf
  split_ifs with hn
  · exact ⟨s, rfl, hw⟩
  · have ht : s.numSegments + id < s.tree.length := by rw [hw.tree_length]; omega
    refine ⟨_, by rw [setAt?_of_lt _ ht]; rfl, ?_⟩
    exact { hw with tree_length := by simpa using hw.tree_length, leaves_lt := insert_lt hid hw.leaves_lt }

lemma setLeaf_wf {root : Digest} (h : s.setLeaf id root = some s') (hw : s.Wf) (hid : id < s.numSegments) : s'.Wf := by
  obtain ⟨s1, h1, hw1⟩ := setLeaf_ok hw hid root
  rw [h] at h1
  cases h1
  exact hw1

lemma installRoot_ok (hw : s.Wf) (hid : id < s.numSegments) (root : Digest) :
    ∃ s', s.installRoot id root = some s' ∧ s'.Wf := by
  refine setLeaf_ok ?_ ?_ root
  · exact { hw with
      segRoots_length := by simpa using hw.segRoots_length
      dirty_lt := remove_lt hw.dirty_lt }
  · exact hid

lemma flushSegment_ok (hw : s.Wf) (hid : id < s.numSegments) (he : id ∉ s.evicted) :
    ∃ s', s.flushSegment H id = some s' ∧ s'.Wf := by
  obtain ⟨cached, hr⟩ : ∃ cached, s.segRoots[id]? = some cached :=
    ⟨_, getElem?_eq_getElem (hw.segRoots_length ▸ hid)⟩
  obtain ⟨cols, hc⟩ : ∃ cols, s.segments[id]? = some cols :=
    ⟨_, getElem?_eq_getElem (hw.segments_length ▸ hid)⟩
  unfold flushSegment
  rw [hr]
  simp only [he, if_false, hc]
  split_ifs with hclean
  · exact ⟨s, rfl, hw⟩
  · exact installRoot_ok hw hid _

lemma flushTree_frame (h : s.flushTree H = some s') : SameData s s' := by
  unfold flushTree at h
  split_ifs at h with h1 h2
  · cases h
    exact { SameData.refl s with }
  · obtain ⟨tree, -, rfl⟩ := Option.map_eq_some_iff.mp h
    exact { SameData.refl s with }
  · obtain ⟨tree, -, rfl⟩ := Option.map_eq_some_iff.mp h
    exact { SameData.refl s with }

lemma flushTree_ok (hw : s.Wf) : ∃ s', s.flushTree H = some s' ∧ s'.Wf := by
  unfold flushTree
  split_ifs with h1 h2
  · exact ⟨_, rfl, { hw with leaves_lt := by simp }⟩
  · obtain ⟨tree, ht, hl⟩ := hashAll?_ok H s.numSegments s.tree hw.tree_length
    refine ⟨_, by rw [ht]; rfl, ?_⟩
    exact { hw with tree_length := hl.trans hw.tree_length }
  · simp only
    obtain ⟨tree, ht, hl⟩ := foldlM_hashNode?_ok H
      (((s.dirtyTreeLeaves.flatMap fun id =>
        ancestors (s.numSegments + id) (s.numSegments + id)).dedup).mergeSort
        (fun a b => decide (b ≤ a))) s.tree (by
        intro k hk
        simp only [mem_mergeSort, mem_dedup, mem_flatMap] at hk
        obtain ⟨id, hid, hk⟩ := hk
        have hlt := hw.leaves_lt id hid
        have hle := (mem_ancestors hk).2
        rw [hw.tree_length]
        omega)
    refine ⟨_, by rw [ht]; rfl, ?_⟩
    exact { hw with tree_length := hl.trans hw.tree_length, leaves_lt := by simp }

lemma foldlM_flushSegment_panics :
    ∀ (ids : List ℕ) (s : SegmentedFriState), id ∈ ids → id ∈ s.dirty → id ∈ s.evicted →
      ids.foldlM (flushSegment H) s = none
  | a :: ids, s, hid, hd, he => by
    rw [foldlM_cons]
    by_cases ha : a = id
    · subst ha
      rw [flushSegment_panics hd he]
      rfl
    · cases h : flushSegment H s a with
      | none => rfl
      | some s1 =>
        obtain ⟨hsame, hkeep⟩ := flushSegment_frame h
        have hid : id ∈ ids := (mem_cons.mp hid).resolve_left (Ne.symm ha)
        exact foldlM_flushSegment_panics ids s1 hid (hkeep id hd (Ne.symm ha))
          (hsame.evicted ▸ he)

lemma flushAllDirty_panics (hd : id ∈ s.dirty) (he : id ∈ s.evicted) : s.flushAllDirty H = none := by
  unfold flushAllDirty
  rw [foldlM_flushSegment_panics s.dirty s hd hd he]
  rfl

lemma flushAllDirty_ok (hw : s.Wf) (hno : ∀ id ∈ s.dirty, id ∉ s.evicted) :
    ∃ s', s.flushAllDirty H = some s' ∧ s'.Wf ∧ SameData s s' := by
  obtain ⟨s1, h1, hw1, hsame1⟩ := foldlM_option_of_inv
    (P := fun b => b.Wf ∧ SameData s b) (f := flushSegment H) s.dirty s
    ⟨hw, SameData.refl s⟩ (by
      rintro b id hid ⟨hb, hsb⟩
      obtain ⟨b', hb', hwb'⟩ := flushSegment_ok (H := H) hb
        (hsb.numSegments ▸ hw.dirty_lt id hid) (hsb.evicted ▸ hno id hid)
      exact ⟨b', hb', hwb', hsb.trans (flushSegment_frame hb').1⟩)
  obtain ⟨s2, h2, hw2⟩ := flushTree_ok (H := H) hw1
  exact ⟨s2, by unfold flushAllDirty; rw [h1]; exact h2, hw2, hsame1.trans (flushTree_frame h2)⟩

lemma flushAllDirty_wf (hw : s.Wf) (h : s.flushAllDirty H = some s') : s'.Wf := by
  by_cases hno : ∀ id ∈ s.dirty, id ∉ s.evicted
  · obtain ⟨s1, h1, hw1, -⟩ := flushAllDirty_ok (H := H) hw hno
    rw [h] at h1
    cases h1
    exact hw1
  · push Not at hno
    obtain ⟨id, hd, he⟩ := hno
    rw [flushAllDirty_panics hd he] at h
    cases h

end Flush

/-! ### Operations keep the invariant -/

section Steps

variable {H : SegmentHash} {s s' : SegmentedFriState}

lemma Wf.live_of_set (hw : s.Wf) {id live : ℕ} {c : Option SegmentColumns}
    (hc : c ≠ none → live ≠ 0) (i : ℕ) (cols : SegmentColumns)
    (h : ((s.segments.set id c)[i]?).join = some cols) : (s.liveCounts.set id live).getD i 0 ≠ 0 := by
  have hlen : s.segments.length = s.liveCounts.length :=
    hw.segments_length.trans hw.liveCounts_length.symm
  by_cases hi : i = id
  · subst hi
    by_cases hlt : i < s.segments.length
    · have : c ≠ none := by
        rintro rfl
        simp [hlt] at h
      simpa [getElem?_set, show i < s.liveCounts.length by omega] using hc this
    · simp [hlt] at h
  · have h' : s.columns i = some cols := by
      simpa [columns, getElem?_set, Ne.symm hi] using h
    simpa [segmentLiveCount, getElem?_set, Ne.symm hi] using hw.live_of_columns i cols h'

lemma Wf.live_of_clear (hw : s.Wf) {id : ℕ} (i : ℕ) (cols : SegmentColumns)
    (h : ((s.segments.set id none)[i]?).join = some cols) : s.segmentLiveCount i ≠ 0 := by
  refine hw.live_of_columns i cols ?_
  by_cases hi : i = id
  · subst hi
    by_cases hlt : i < s.segments.length <;> simp [hlt] at h
  · simpa [columns, getElem?_set, Ne.symm hi] using h

/-- Replacing what is kept of one segment. -/
theorem Wf.store (hw : s.Wf) {id live : ℕ} {c : Option SegmentColumns} (hc : c ≠ none → live ≠ 0)
    {root : Option Digest} {dirty evicted mdbxDirty exactDirty : List ℕ} (hdirty : ∀ x ∈ dirty, x < s.numSegments)
    (hevicted : ∀ x ∈ evicted, x < s.numSegments) {cache : ExactSegmentCache} {treeDirty : Bool} :
    Wf { s with
      exactSegmentCache := cache, segments := s.segments.set id c, liveCounts := s.liveCounts.set id live
      segRoots := s.segRoots.set id root, dirty := dirty, evicted := evicted, mdbxDirty := mdbxDirty
      exactDirty := exactDirty, treeDirty := treeDirty } :=
  { hw with
    segments_length := by simpa using hw.segments_length
    segRoots_length := by simpa using hw.segRoots_length
    liveCounts_length := by simpa using hw.liveCounts_length
    dirty_lt := hdirty
    evicted_lt := hevicted
    live_of_columns := hw.live_of_set hc }

/-- Dropping the columns of one segment. -/
theorem Wf.evict (hw : s.Wf) {id : ℕ} (hid : id < s.numSegments) {cache : ExactSegmentCache} :
    Wf { s with
      exactSegmentCache := cache, segments := s.segments.set id none, evicted := s.evicted.insert id } :=
  { hw with
    segments_length := by simpa using hw.segments_length
    evicted_lt := insert_lt hid hw.evicted_lt
    live_of_columns := hw.live_of_clear }

lemma segIdOf_lt (hw : s.Wf) {idx : ℕ} (h : idx < s.numSlots) : s.segIdOf idx < s.numSegments := by
  rw [hw.count, segIdOf, Nat.div_lt_iff_lt_mul (Nat.two_pow_pos _), hw.effective]
  refine lt_of_lt_of_eq h ?_
  unfold numSlots
  rcases le_total s.logSlots LOG_SEGMENT_SIZE with hle | hle
  · rw [segmentCount_of_le hle, min_eq_left hle, one_mul]
  · rw [segmentCount_of_ge hle, min_eq_right hle, ← pow_add, Nat.sub_add_cancel hle]

lemma storeSlot_wf (hw : s.Wf) {idx : ℕ} (hidx : idx < s.numSlots) (v : SlotValue)
    (cols : SegmentColumns) {evicted : List ℕ} (he : ∀ x ∈ evicted, x < s.numSegments) :
    (s.storeSlot idx v cols evicted).Wf := by
  refine hw.store (fun h hz => h (if_pos hz)) (insert_lt (segIdOf_lt hw hidx) hw.dirty_lt) ?_
  split_ifs
  · exact remove_lt he
  · exact he

lemma writeSlot_cases (s : SegmentedFriState) (idx : ℕ) (v : SlotValue) : (s.slot idx = v ∧ s.writeSlot idx v = s) ∨
    (s.slot idx ≠ v ∧ ∃ cols, s.columns (s.segIdOf idx) = some cols ∧
      s.writeSlot idx v = s.storeSlot idx v cols s.evicted) ∨
    (s.slot idx ≠ v ∧ s.columns (s.segIdOf idx) = none ∧ s.writeSlot idx v =
        s.storeSlot idx v SegmentColumns.newZero (IdSet.remove s.evicted (s.segIdOf idx))) := by
  unfold writeSlot
  by_cases hv : s.slot idx = v
  · exact .inl ⟨hv, if_pos hv⟩
  · rw [if_neg hv]
    cases hc : s.columns (s.segIdOf idx) with
    | some cols => exact .inr (.inl ⟨hv, cols, rfl, rfl⟩)
    | none =>
      have hne : ¬ v.isEmpty = true := by
        rw [SlotValue.isEmpty_iff]
        rintro rfl
        exact hv (by simp [slot, hc])
      exact .inr (.inr ⟨hv, rfl, if_neg hne⟩)

lemma writeSlot_wf (hw : s.Wf) {idx : ℕ} (hidx : idx < s.numSlots) (v : SlotValue) : (s.writeSlot idx v).Wf := by
  rcases writeSlot_cases s idx v with ⟨-, h⟩ | ⟨-, cols, -, h⟩ | ⟨-, -, h⟩ <;> rw [h]
  · exact hw
  · exact storeSlot_wf hw hidx v cols hw.evicted_lt
  · exact storeSlot_wf hw hidx v _ (remove_lt hw.evicted_lt)

@[simp] lemma writeSlot_logSlots (s : SegmentedFriState) (idx : ℕ) (v : SlotValue) :
    (s.writeSlot idx v).logSlots = s.logSlots := by
  rcases writeSlot_cases s idx v with ⟨-, h⟩ | ⟨-, cols, -, h⟩ | ⟨-, -, h⟩ <;> rw [h] <;> rfl

lemma foldl_writeSlot_wf :
    ∀ (deltas : List (ℕ × SlotValue)) (s : SegmentedFriState), s.Wf →
      (∀ d ∈ deltas, d.1 < s.numSlots) → (deltas.foldl (fun s d => s.writeSlot d.1 d.2) s).Wf
  | [], s, hw, _ => hw
  | d :: deltas, s, hw, h => by
    have hn : (s.writeSlot d.1 d.2).numSlots = s.numSlots := by simp [numSlots]
    exact foldl_writeSlot_wf deltas _ (writeSlot_wf hw (h d (by simp)) d.2)
      (fun d' hd' => hn ▸ h d' (.tail _ hd'))

lemma applyDeltaUnrooted_wf (hw : s.Wf) {deltas : List (ℕ × SlotValue)}
    (h : s.applyDeltaUnrooted deltas = some s') : s'.Wf := by
  unfold applyDeltaUnrooted at h
  split_ifs at h with hin
  cases h
  exact foldl_writeSlot_wf deltas s hw (by simpa using hin)

lemma installEvictedExactSummary_wf (hw : s.Wf) {id live : ℕ}
    (h : s.installEvictedExactSummary id live = some s') : s'.Wf := by
  unfold installEvictedExactSummary at h
  split_ifs at h with hbad
  cases h
  have hid : id < s.numSegments := by omega
  exact hw.store (fun h => absurd rfl h) (insert_lt hid hw.dirty_lt) (insert_lt hid hw.evicted_lt)

lemma installEvictedSegmentSummary_wf (hw : s.Wf) {id live : ℕ} {root : Digest}
    (h : s.installEvictedSegmentSummary id live root = some s') : s'.Wf := by
  unfold installEvictedSegmentSummary at h
  split_ifs at h with hbad
  have hid : id < s.numSegments := by omega
  exact setLeaf_wf h (hw.store (fun h => absurd rfl h) hw.dirty_lt (insert_lt hid hw.evicted_lt)) hid

lemma finishEvictedSegmentSummaries_wf (hw : s.Wf) (h : s.finishEvictedSegmentSummaries H = some s') : s'.Wf := by
  obtain ⟨s1, h1, hw1⟩ := flushTree_ok (H := H) hw
  rw [finishEvictedSegmentSummaries, h1] at h
  cases h
  exact { hw1 with dirty_lt := by simp }

lemma restorePersistedSegmentSummaryAndEvict_wf (hw : s.Wf) {id : ℕ} {parentRoot : Option Digest}
    (h : s.restorePersistedSegmentSummaryAndEvict H id parentRoot = some s') : s'.Wf := by
  unfold restorePersistedSegmentSummaryAndEvict at h
  split_ifs at h with hbad
  have hid : id < s.numSegments := by omega
  simp only at h
  generalize (if s.segmentLiveCount id = 0 then some (H.zeroSegRootFor s.effectiveLogSeg) else parentRoot) = root at h
  have hrestored : ({ s with
      exactSegmentCache := s.exactSegmentCache.remove id
      segments := s.segments.set id none
      segRoots := s.segRoots.set id root
      evicted := if s.segmentLiveCount id = 0 then IdSet.remove s.evicted id else s.evicted.insert id
      dirty := if root.isSome then IdSet.remove s.dirty id else s.dirty.insert id } : SegmentedFriState).Wf :=
    { hw with
      segments_length := by simpa using hw.segments_length
      segRoots_length := by simpa using hw.segRoots_length
      dirty_lt := marked_lt hid hw.dirty_lt
      evicted_lt := marked_lt hid hw.evicted_lt
      live_of_columns := hw.live_of_clear }
  cases root with
  | none =>
    cases h
    exact { hrestored with }
  | some root => exact setLeaf_wf h hrestored hid

lemma restoreEvictedSegment_wf (hw : s.Wf) {id : ℕ} {cols : SegmentColumns}
    (h : s.restoreEvictedSegment id cols = some s') : s'.Wf := by
  unfold restoreEvictedSegment at h
  split_ifs at h with hbad
  cases h
  have hid : id < s.numSegments := by rw [← hw.segments_length]; omega
  exact hw.store (fun h hz => h (if_pos hz)) (insert_lt hid hw.dirty_lt) (remove_lt hw.evicted_lt)

lemma evictSegment_wf (hw : s.Wf) {id : ℕ} (h : s.evictSegment id = some s') : s'.Wf := by
  unfold evictSegment at h
  cases hc : s.segments[id]? with
  | none => simp [hc] at h
  | some c =>
    have hid : id < s.numSegments := by
      rw [← hw.segments_length]
      exact (List.getElem?_eq_some_iff.mp hc).1
    cases c with
    | none =>
      simp only [hc, Option.some.injEq] at h
      subst h
      exact { hw with }
    | some cols =>
      simp only [hc, Option.some.injEq] at h
      subst h
      exact hw.evict hid

lemma evictWhere_wf (cond : SegmentedFriState → ℕ → Bool) (hw : s.Wf) {id : ℕ} (hid : id < s.numSegments) :
    (s.evictWhere cond id).Wf := by
  unfold evictWhere
  split_ifs
  · exact hw.evict hid
  · exact hw

@[simp] lemma evictWhere_numSegments (cond : SegmentedFriState → ℕ → Bool) (s : SegmentedFriState) (id : ℕ) :
    (s.evictWhere cond id).numSegments = s.numSegments := by
  unfold evictWhere
  split_ifs <;> rfl

lemma foldl_evictWhere_wf (cond : SegmentedFriState → ℕ → Bool) :
    ∀ (ids : List ℕ) (s : SegmentedFriState), s.Wf → (∀ id ∈ ids, id < s.numSegments) →
      (ids.foldl (evictWhere cond) s).Wf
  | [], _, hw, _ => hw
  | id :: ids, s, hw, h =>
    foldl_evictWhere_wf cond ids _ (evictWhere_wf cond hw (h id (by simp)))
      (fun x hx => by simpa using h x (.tail _ hx))

lemma newEmpty_wf {log : ℕ} (h : newEmpty H log = some s) : s.Wf := by
  unfold newEmpty at h
  split_ifs at h with hpos
  obtain ⟨tree, ht, rfl⟩ := Option.map_eq_some_iff.mp h
  obtain ⟨tree', ht', hl⟩ := rebuildTree?_ok H (segmentCount log)
    (replicate (segmentCount log) (some (H.zeroSegRootFor (min log LOG_SEGMENT_SIZE))))
    (H.zeroSegRootFor (min log LOG_SEGMENT_SIZE)) (by simp)
  rw [ht'] at ht
  cases ht
  refine ⟨Nat.not_lt.mp hpos, rfl, rfl, by simp, by simp, by simp, hl, by simp, by simp, by simp, ?_⟩
  intro id cols hc
  simp only [columns, getElem?_replicate] at hc
  split_ifs at hc <;> simp at hc

lemma expand_wf (hw : s.Wf) (h : s.expand H = some s') : s'.Wf := by
  unfold expand at h
  simp only at h
  split_ifs at h with hsmall
  · have hn : s.numSegments = 1 := by
      rw [hw.count, segmentCount_of_le (by omega)]
    cases hc : s.segments[0]? with
    | none => simp [hc] at h
    | some cols =>
      simp only [hc] at h
      refine flushAllDirty_wf ?_ h
      exact { hw with
        log_pos := Nat.succ_pos _
        effective := (min_eq_left hsmall).symm
        count := hn.trans (segmentCount_of_le hsmall).symm
        segments_length := by simpa using hw.segments_length
        segRoots_length := by simpa using hw.segRoots_length
        dirty_lt := insert_lt (hn ▸ Nat.one_pos) hw.dirty_lt
        live_of_columns := by
          intro i c hi
          by_cases h0 : i = 0
          · subst h0
            have hlen : 0 < s.segments.length := by rw [hw.segments_length]; omega
            cases cols with
            | none => simp [columns, hlen] at hi
            | some c' => exact hw.live_of_columns 0 c' (by simp [columns, hc])
          · exact hw.live_of_columns i c (by simpa [columns, getElem?_set, Ne.symm h0] using hi) }
  · have hle : LOG_SEGMENT_SIZE ≤ s.logSlots := by omega
    obtain ⟨tree, ht, rfl⟩ := Option.map_eq_some_iff.mp h
    have hroots : (resizeVec s.segRoots s.numSegments none ++
        replicate s.numSegments (some (H.zeroSegRootFor s.effectiveLogSeg))).length =
        s.numSegments * 2 := by
      simp [resizeVec, hw.segRoots_length]
      omega
    obtain ⟨tree', ht', hl⟩ := rebuildTree?_ok H (s.numSegments * 2) _
      (H.zeroSegRootFor s.effectiveLogSeg) hroots
    rw [ht'] at ht
    cases ht
    have hlt2 : ∀ x : ℕ, x < s.numSegments → x < s.numSegments * 2 := fun x hx => by omega
    refine ⟨Nat.succ_pos _, ?_, ?_, ?_, hroots, ?_, hl, fun x hx => hlt2 x (hw.dirty_lt x hx),
      fun x hx => hlt2 x (hw.evicted_lt x hx), fun x hx => hlt2 x (hw.leaves_lt x hx), ?_⟩
    · exact hw.effective.trans (by rw [min_eq_right hle, min_eq_right (Nat.le_succ_of_le hle)])
    · simp only [segmentCount_succ hle, hw.count]
      omega
    · simp [resizeVec, hw.segments_length]
      omega
    · simp [resizeVec, hw.liveCounts_length]
      omega
    · intro i c hi
      have hc : s.columns i = some c := by
        simpa [columns, resizeVec_of_le _ _ (show s.segments.length ≤ s.numSegments * 2 by
          rw [hw.segments_length]; omega), join_append_replicate_none] using hi
      have := hw.live_of_columns i c hc
      simpa [segmentLiveCount, resizeVec_of_le _ _ (show s.liveCounts.length ≤ s.numSegments * 2 by
          rw [hw.liveCounts_length]; omega), getD_append_replicate] using this

lemma apply_wf (hw : s.Wf) (op : SegOp) (h : op.apply H s = some s') : s'.Wf := by
  cases op with
  | installEvictedExactSummary id live => exact installEvictedExactSummary_wf hw h
  | finishEvictedExactSummaries =>
    cases h
    exact { hw with }
  | installEvictedSegmentSummary id live root => exact installEvictedSegmentSummary_wf hw h
  | finishEvictedSegmentSummaries => exact finishEvictedSegmentSummaries_wf hw h
  | restorePersistedSegmentSummaryAndEvict id root => exact restorePersistedSegmentSummaryAndEvict_wf hw h
  | applyDeltaUnrooted deltas => exact applyDeltaUnrooted_wf hw h
  | restoreEvictedSegment id cols => exact restoreEvictedSegment_wf hw h
  | evictSegment id => exact evictSegment_wf hw h
  | evictCleanSegments =>
    cases h
    exact foldl_evictWhere_wf _ _ s hw (by simp)
  | evictAllPersistedSegments =>
    simp only [SegOp.apply, evictAllPersistedSegments] at h
    split_ifs at h
    cases h
    exact foldl_evictWhere_wf _ _ _ { hw with } (by simp)
  | evictColdPersistedSegments =>
    simp only [SegOp.apply, evictColdPersistedSegments] at h
    split_ifs at h
    cases h
    exact foldl_evictWhere_wf _ _ s hw (by simp)
  | clearDirty =>
    cases h
    exact { hw with }
  | clearExactDirty =>
    cases h
    exact { hw with }
  | rememberExactSegmentTree id size =>
    cases h
    unfold rememberExactSegmentTree
    split_ifs
    · exact { hw with }
    · exact hw
  | root => exact flushAllDirty_wf hw h
  | expand =>
    simp only [SegOp.apply] at h
    split_ifs at h
    exact expand_wf hw h

end Steps

end SegmentedFriState

lemma SegReachable.wf {H : SegmentHash} {s : SegmentedFriState} (hs : SegReachable H s) : s.Wf :=
  hs.invariant (fun _ ⟨_, _, h⟩ => SegmentedFriState.newEmpty_wf h)
    (fun _ op _ hw h => SegmentedFriState.apply_wf hw op h)

end Noid.Chain
