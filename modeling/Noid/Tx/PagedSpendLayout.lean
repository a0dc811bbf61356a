import Noid.Tx.PagedSpend

/-! # The layout of a paged spend

The scan of an accepted spend has seen no live entry after a dead one, dead entries are zero, and the number of pages is
the least that holds the live ones.  So a payment has one layout. -/

namespace Noid.Tx

open Noid.Lib TxBody

open List hiding Vector

/-! ### Cells -/

/-- The inputs of a page with their marks. -/
def TxBody.inputCells (b : TxBody) : List (TxInput × Bool) :=
  b.inputs.toList.zipIdx.map fun (input, slot) => (input, b.inputIsLive slot)

/-- The outputs of a page with their marks. -/
def TxBody.outputCells (b : TxBody) : List (TxOutput × Bool) :=
  b.outputs.toList.zipIdx.map fun (output, slot) => (output, b.outputIsLive slot)

section
variable {b b' : TxBody}

lemma length_inputCells (b : TxBody) : b.inputCells.length = TX_INPUTS := by
  rw [inputCells, length_map, length_zipIdx, Vector.length_toList]

lemma length_outputCells (b : TxBody) : b.outputCells.length = TX_OUTPUTS := by
  rw [outputCells, length_map, length_zipIdx, Vector.length_toList]

lemma liveInputs_eq (b : TxBody) : b.liveInputs = (b.inputCells.filter Prod.snd).map Prod.fst := by
  simp [liveInputs, inputCells, filter_map, Function.comp_def]

lemma liveOutputs_eq (b : TxBody) : b.liveOutputs = (b.outputCells.filter Prod.snd).map Prod.fst := by
  simp [liveOutputs, outputCells, filter_map, Function.comp_def]

lemma isLive_inputEntries (b : TxBody) : b.inputEntries.map (·.isLive) = b.inputCells.map Prod.snd := by
  simp [inputEntries, inputCells]

lemma isLive_outputEntries (b : TxBody) : b.outputEntries.map (·.isLive) = b.outputCells.map Prod.snd := by
  simp [outputEntries, outputCells]

/-- Entries with their marks determine both. -/
theorem eq_of_cells {α : Type} {n : ℕ} {v v' : Vector α n} {live live' : ℕ → Bool}
    (h : (v.toList.zipIdx.map fun e => (e.1, live e.2)) = v'.toList.zipIdx.map fun e => (e.1, live' e.2)) :
    v = v' ∧ ∀ k < n, live k = live' k := by
  have hcell : ∀ k (hk : k < n), v[k] = v'[k] ∧ live k = live' k := by
    intro k hk
    have hget := congrArg (·[k]?) h
    simpa [getElem?_map, getElem?_zipIdx, hk] using hget
  exact ⟨Vector.ext fun k hk => (hcell k hk).1, fun k hk => (hcell k hk).2⟩

lemma inputs_of_cells (h : b.inputCells = b'.inputCells) :
    b.inputs = b'.inputs ∧ ∀ k < TX_INPUTS, b.validityBitmap.testBit k = b'.validityBitmap.testBit k := by
  obtain ⟨hinputs, hlive⟩ := eq_of_cells h
  exact ⟨hinputs, fun k hk => by simpa [inputIsLive, hk] using hlive k hk⟩

lemma outputs_of_cells (h : b.outputCells = b'.outputCells) :
    b.outputs = b'.outputs ∧
      ∀ k < TX_OUTPUTS, b.validityBitmap.testBit (TX_INPUTS + k) = b'.validityBitmap.testBit (TX_INPUTS + k) := by
  obtain ⟨houtputs, hlive⟩ := eq_of_cells h
  exact ⟨houtputs, fun k hk => by simpa [outputIsLive, hk] using hlive k hk⟩

lemma dead_cells {α : Type} {n : ℕ} {v : Vector α n} {live : ℕ → Bool} {dummy : α}
    (h : ∀ (i : ℕ) (hi : i < n), live i = true ∨ v[i] = dummy) :
    ∀ e ∈ v.toList.zipIdx.map fun e => (e.1, live e.2), e.2 = false → e.1 = dummy := by
  refine forall_mem_map.mpr (forall_mem_zipIdx.mpr fun i hi hdead => (h i hi).resolve_left ?_)
  exact Bool.eq_false_iff.mp hdead

lemma dead_inputCells {page : ℕ} (h : validatePageShape b page = .ok ()) :
    ∀ e ∈ b.inputCells, e.2 = false → e.1 = .dummy :=
  dead_cells (validatePageShape_eq_ok.mp h).2.2.1

lemma dead_outputCells {page : ℕ} (h : validatePageShape b page = .ok ()) :
    ∀ e ∈ b.outputCells, e.2 = false → e.1 = .dummy :=
  dead_cells (validatePageShape_eq_ok.mp h).2.2.2

end

/-! ### Density -/

/-- What the scan of one side knows about the entries it has seen. -/
structure Seen (done : List SideEntry) (st : SideScan) : Prop where
  dense : Dense (done.map (·.isLive))
  gap : st.gap = false → ∀ e ∈ done, e.isLive = true
  live : st.live = (done.filter (·.isLive)).length

section
variable {rules : SideRules} {page : ℕ} {done l : List SideEntry} {st st' : SideScan} {e : SideEntry}

lemma seen_start : Seen [] .start := ⟨List.Pairwise.nil, fun _ _ he => (by cases he), rfl⟩

lemma Seen.entry (h : Seen done st) (hentry : SideScan.entry rules page st e = .ok st') : Seen (done ++ [e]) st' := by
  unfold SideScan.entry at hentry
  have hdense : (e.isLive = true → ∀ x ∈ done, x.isLive = true) → Dense ((done ++ [e]).map (·.isLive)) := by
    intro hlive
    rw [map_append, Lib.Dense, pairwise_append]
    refine ⟨h.dense, pairwise_singleton _ _, fun a ha b hb => ?_⟩
    obtain ⟨x, hx, rfl⟩ := mem_map.mp ha
    obtain rfl := mem_singleton.mp hb
    exact fun hup => hlive hup x hx
  by_cases hlive : e.isLive
  · rw [if_pos hlive] at hentry
    simp only [ok_rules] at hentry
    obtain ⟨hgap, -, -, -, rfl⟩ := hentry
    refine ⟨hdense fun _ => h.gap hgap, fun _ => ?_, ?_⟩
    · exact forall_mem_append.mpr ⟨h.gap hgap, forall_mem_singleton.mpr hlive⟩
    · rw [filter_append, filter_cons_of_pos hlive, length_append, h.live]
      rfl
  · rw [if_neg hlive] at hentry
    cases hentry
    refine ⟨hdense fun hup => absurd hup hlive, fun hgap => (by cases hgap), ?_⟩
    rw [filter_append, filter_cons_of_neg hlive, filter_nil, append_nil]
    exact h.live

lemma Seen.fold (h : Seen done st) (hfold : l.foldlM (SideScan.entry rules page) st = .ok st') :
    Seen (done ++ l) st' := by
  induction l generalizing done st with
  | nil =>
    cases hfold
    rwa [append_nil]
  | cons e l ih =>
    rw [foldlM_cons, bind_eq_ok] at hfold
    obtain ⟨st1, hentry, hrest⟩ := hfold
    rw [← singleton_append, ← append_assoc]
    exact ih (h.entry hentry) hrest

lemma Seen.pages {pages : List TxPage} {start : ℕ} {ins outs : List SideEntry} {sts sts' : SideScan × SideScan}
    (hin : Seen ins sts.1) (hout : Seen outs sts.2)
    (h : (pages.zipIdx start).foldlM (fun st (page, index) => scanSpendPage st page index) sts = .ok sts') :
    Seen (ins ++ pageInputs pages) sts'.1 ∧ Seen (outs ++ pageOutputs pages) sts'.2 := by
  induction pages generalizing start ins outs sts with
  | nil =>
    cases h
    rw [pageInputs, pageOutputs, flatMap_nil, flatMap_nil, append_nil, append_nil]
    exact ⟨hin, hout⟩
  | cons page pages ih =>
    rw [zipIdx_cons, foldlM_cons, bind_eq_ok] at h
    obtain ⟨sts1, hpage, hrest⟩ := h
    simp only [scanSpendPage, ok_rules] at hpage
    obtain ⟨ins1, hins, outs1, houts, rfl⟩ := hpage
    have htail := ih (hin.fold hins) (hout.fold houts) hrest
    rwa [append_assoc, append_assoc] at htail

end

/-! ### The accepted layout -/

def spendInputCells (pages : List TxPage) : List (TxInput × Bool) := pages.flatMap fun p => p.body.inputCells

def spendOutputCells (pages : List TxPage) : List (TxOutput × Bool) := pages.flatMap fun p => p.body.outputCells

def spendInputs (pages : List TxPage) : List TxInput := pages.flatMap fun p => p.body.liveInputs

def spendOutputs (pages : List TxPage) : List TxOutput := pages.flatMap fun p => p.body.liveOutputs

def TxPage.contractBits (p : TxPage) : ℕ := p.body.validityBitmap &&& PAGED_SPEND_V2_CONTRACT_MASK

/-- The layout of an accepted spend: dense, on as few pages as possible, marked at the ends. -/
structure SpendLayout (pages : List TxPage) (first : TxPage) : Prop where
  start : first.isStart = true
  finish : ∀ last, pages.getLast? = some last → last.isEnd = true
  inputs : Dense ((spendInputCells pages).map Prod.snd)
  outputs : Dense ((spendOutputCells pages).map Prod.snd)
  count : pages.length = max (max 1 (divCeil (spendInputs pages).length TX_INPUTS))
    (divCeil (spendOutputs pages).length TX_OUTPUTS)

section
variable {pages pages' : List TxPage} {first first' : TxPage} {hashPages : List TxPage → Digest}

lemma spendInputs_eq (pages : List TxPage) :
    spendInputs pages = ((spendInputCells pages).filter Prod.snd).map Prod.fst := by
  simp only [spendInputs, spendInputCells, liveInputs_eq, filter_flatMap, map_flatMap]

lemma spendOutputs_eq (pages : List TxPage) :
    spendOutputs pages = ((spendOutputCells pages).filter Prod.snd).map Prod.fst := by
  simp only [spendOutputs, spendOutputCells, liveOutputs_eq, filter_flatMap, map_flatMap]

lemma isLive_pageInputs (pages : List TxPage) :
    (pageInputs pages).map (·.isLive) = (spendInputCells pages).map Prod.snd := by
  simp only [pageInputs, spendInputCells, map_flatMap, isLive_inputEntries]

lemma isLive_pageOutputs (pages : List TxPage) :
    (pageOutputs pages).map (·.isLive) = (spendOutputCells pages).map Prod.snd := by
  simp only [pageOutputs, spendOutputCells, map_flatMap, isLive_outputEntries]

/-- The number of live entries, counted by their marks. -/
theorem length_filter_isLive {α : Type} {l : List SideEntry} {cells : List (α × Bool)}
    (h : l.map (·.isLive) = cells.map Prod.snd) :
    (l.filter (·.isLive)).length = ((cells.filter Prod.snd).map Prod.fst).length := by
  rw [length_map, ← countP_eq_length_filter, ← countP_eq_length_filter]
  have hcount : ∀ {β : Type} (f : β → Bool) (l : List β), l.countP f = (l.map f).countP id := fun f l => by
    rw [countP_map]
    rfl
  rw [hcount (fun e : SideEntry => e.isLive), hcount Prod.snd, h]

lemma validatePagedSpend_layout {facts : PagedSpendFacts} (h : validatePagedSpend hashPages pages = .ok facts) :
    ∃ first, SpendOk pages first ∧ SpendLayout pages first ∧ facts.inputOwner = first.body.inputOwner ∧
      facts.epochAnchor = first.body.epochAnchor ∧ facts.fee = first.body.fee := by
  obtain ⟨first, hok⟩ := validatePagedSpend_eq_ok h
  simp only [validatePagedSpend, scanSpend, ok_rules, forM_eq_ok, Prod.exists] at h
  obtain ⟨⟨⟩, -, -, first', hfirst, last, hlast, hstart, hend, -, ins, outs, hscan, -, -, hcount, -, -, rfl⟩ := h
  obtain rfl : first' = first := Option.some.inj (hfirst.symm.trans hok.head)
  obtain ⟨hins, houts⟩ := Seen.pages seen_start seen_start hscan
  rw [nil_append] at hins houts
  refine ⟨first', hok, ⟨hstart, fun last' hlast' => ?_, ?_, ?_, ?_⟩, rfl, rfl, rfl⟩
  · obtain rfl : last = last' := Option.some.inj (hlast.symm.trans hlast')
    exact hend
  · rw [← isLive_pageInputs]
    exact hins.dense
  · rw [← isLive_pageOutputs]
    exact houts.dense
  · rw [hcount, hins.live, houts.live, length_filter_isLive (isLive_pageInputs pages),
      length_filter_isLive (isLive_pageOutputs pages), ← spendInputs_eq, ← spendOutputs_eq]

section
variable (h : SpendOk pages first) (h' : SpendOk pages' first') (hlen : pages.length = pages'.length)
include h h' hlen

/-- A dense side of a spend of a length is determined by its live entries. -/
theorem cells_unique {α : Type} {cells : TxBody → List (α × Bool)} {n : ℕ} {dummy : α} (hn : ∀ b, (cells b).length = n)
    (hdead : ∀ {b page}, validatePageShape b page = .ok () → ∀ e ∈ cells b, e.2 = false → e.1 = dummy)
    (hdense : Dense ((pages.flatMap fun p => cells p.body).map Prod.snd))
    (hdense' : Dense ((pages'.flatMap fun p => cells p.body).map Prod.snd))
    (hlive : ((pages.flatMap fun p => cells p.body).filter Prod.snd).map Prod.fst =
      ((pages'.flatMap fun p => cells p.body).filter Prod.snd).map Prod.fst) :
    pages.map (fun p => cells p.body) = pages'.map fun p => cells p.body := by
  have hall : ∀ {pages : List TxPage} {first : TxPage}, SpendOk pages first →
      ∀ e ∈ pages.flatMap fun p => cells p.body, e.2 = false → e.1 = dummy := by
    intro pages first hok e he
    obtain ⟨p, hp, he⟩ := mem_flatMap.mp he
    obtain ⟨i, hi⟩ := mem_iff_getElem?.mp hp
    exact hdead (hok.shape (p, i) (mk_mem_zipIdx_iff_getElem?.mpr hi)) e he
  refine map_eq_of_flatMap (fun p => hn p.body) hlen (eq_of_dense hdense hdense' (hall h) (hall h') ?_ hlive)
  simp only [length_flatMap, hn, map_const', sum_replicate_nat, hlen]

lemma inputCells_unique (hl : SpendLayout pages first) (hl' : SpendLayout pages' first')
    (hlive : spendInputs pages = spendInputs pages') :
    pages.map (fun p => p.body.inputCells) = pages'.map fun p => p.body.inputCells := by
  rw [spendInputs_eq, spendInputs_eq] at hlive
  exact cells_unique h h' hlen length_inputCells dead_inputCells hl.inputs hl'.inputs hlive

lemma outputCells_unique (hl : SpendLayout pages first) (hl' : SpendLayout pages' first')
    (hlive : spendOutputs pages = spendOutputs pages') :
    pages.map (fun p => p.body.outputCells) = pages'.map fun p => p.body.outputCells := by
  rw [spendOutputs_eq, spendOutputs_eq] at hlive
  exact cells_unique h h' hlen length_outputCells dead_outputCells hl.outputs hl'.outputs hlive

end

end

/-! ### Pages from their place -/

lemma isStart_eq (p : TxPage) : p.isStart = p.body.validityBitmap.testBit 10 := by
  rw [TxPage.isStart, PAGED_SPEND_START_BIT, Nat.and_two_pow]
  cases p.body.validityBitmap.testBit 10 <;> decide

lemma isEnd_eq (p : TxPage) : p.isEnd = p.body.validityBitmap.testBit 11 := by
  rw [TxPage.isEnd, PAGED_SPEND_END_BIT, Nat.and_two_pow]
  cases p.body.validityBitmap.testBit 11 <;> decide

/-- What a page of an accepted spend says about itself at its place. -/
structure PlacedPage (first : TxPage) (count : ℕ) (p : TxPage) (index : ℕ) : Prop where
  start : p.body.validityBitmap.testBit 10 = decide (index = 0)
  finish : p.body.validityBitmap.testBit 11 = decide (index + 1 = count)
  reserved : ∀ k, 14 ≤ k → p.body.validityBitmap.testBit k = false
  owner : p.body.inputOwner = first.body.inputOwner
  anchor : p.body.epochAnchor = first.body.epochAnchor
  fee : p.body.fee = if index = 0 then first.body.fee else 0
  coinbase : p.body.isCoinbase = false

section
variable {pages pages' : List TxPage} {first first' : TxPage}

lemma placedPage (h : SpendOk pages first) (hl : SpendLayout pages first)
    (hfit : ∀ p ∈ pages, p.body.validityBitmap < 2 ^ 16) {index : ℕ} (hi : index < pages.length) :
    PlacedPage first pages.length pages[index] index := by
  have hmem : (pages[index], index) ∈ pages.zipIdx :=
    mk_mem_zipIdx_iff_getElem?.mpr (getElem?_eq_getElem hi)
  obtain ⟨hreserved, hcoinbase, -, -⟩ := validatePageShape_eq_ok.mp (h.shape _ hmem)
  have hplace := h.place _ hmem
  simp only [validatePagePlace, ok_rules] at hplace
  obtain ⟨hstart, hend, howner, hanchor, hfee⟩ := hplace
  have hhead : index = 0 → pages[index] = first := by
    intro hzero
    subst hzero
    have hget := h.head
    rw [head?_eq_getElem?, getElem?_eq_getElem hi] at hget
    exact Option.some.inj hget
  refine ⟨?_, ?_, ?_, howner, hanchor, ?_, hcoinbase⟩
  · rw [← isStart_eq]
    by_cases hzero : index = 0
    · rw [hhead hzero, hl.start, decide_eq_true hzero]
    · rw [hstart.resolve_left hzero, decide_eq_false hzero]
  · rw [← isEnd_eq]
    by_cases hlast : index + 1 = pages.length
    · rw [decide_eq_true hlast]
      refine hl.finish _ ?_
      rw [getLast?_eq_getElem?, ← hlast, Nat.add_sub_cancel, getElem?_eq_getElem hi]
    · rw [hend.resolve_left hlast, decide_eq_false hlast]
  · intro k hk
    by_cases hlarge : 16 ≤ k
    · exact Nat.testBit_lt_two_pow (lt_of_lt_of_le (hfit _ (getElem_mem hi)) (Nat.pow_le_pow_right (by decide) hlarge))
    · have hbit := congrArg (fun n => n.testBit k) hreserved
      simp only [Nat.testBit_and, Nat.zero_testBit] at hbit
      have hmask : (2 ^ 16 - 1 - PAGED_SPEND_VALIDITY_MASK).testBit k = true := by
        obtain rfl | rfl : k = 14 ∨ k = 15 := by omega
        all_goals decide
      rw [hmask, Bool.and_true] at hbit
      exact hbit
  · split_ifs with hzero
    · rw [hhead hzero]
    · exact hfee.resolve_left hzero

/-- Two pages at one place with the same cells and contract bits are equal. -/
theorem PlacedPage.ext {count index : ℕ} {p p' : TxPage} (h : PlacedPage first count p index)
    (h' : PlacedPage first' count p' index) (howner : first.body.inputOwner = first'.body.inputOwner)
    (hanchor : first.body.epochAnchor = first'.body.epochAnchor) (hfee : first.body.fee = first'.body.fee)
    (hbits : p.contractBits = p'.contractBits) (hin : p.body.inputCells = p'.body.inputCells)
    (hout : p.body.outputCells = p'.body.outputCells) : p = p' := by
  obtain ⟨hinputs, hinBits⟩ := inputs_of_cells hin
  obtain ⟨houtputs, houtBits⟩ := outputs_of_cells hout
  have hcontract : ∀ k, k = 12 ∨ k = 13 → p.body.validityBitmap.testBit k = p'.body.validityBitmap.testBit k := by
    intro k hk
    have hbit := congrArg (fun n => n.testBit k) hbits
    simp only [TxPage.contractBits, Nat.testBit_and] at hbit
    have hmask : PAGED_SPEND_V2_CONTRACT_MASK.testBit k = true := by
      obtain rfl | rfl := hk
      all_goals decide
    rwa [hmask, Bool.and_true, Bool.and_true] at hbit
  have hbitmap : p.body.validityBitmap = p'.body.validityBitmap := by
    refine Nat.eq_of_testBit_eq fun k => ?_
    by_cases hlow : k < 10
    · by_cases hk : k < TX_INPUTS
      · exact hinBits k hk
      · have hoff := houtBits (k - TX_INPUTS) (by rw [TX_INPUTS] at hk ⊢; rw [TX_OUTPUTS]; omega)
        rwa [Nat.add_sub_cancel' (not_lt.mp hk)] at hoff
    · by_cases hhigh : 14 ≤ k
      · rw [h.reserved k hhigh, h'.reserved k hhigh]
      · obtain rfl | rfl | hk : k = 10 ∨ k = 11 ∨ k = 12 ∨ k = 13 := by omega
        · rw [h.start, h'.start]
        · rw [h.finish, h'.finish]
        · exact hcontract k hk
  have hfees : p.body.fee = p'.body.fee := by rw [h.fee, h'.fee, hfee]
  obtain ⟨body⟩ := p
  obtain ⟨body'⟩ := p'
  cases body
  cases body'
  simp only [TxPage.mk.injEq, mk.injEq]
  exact ⟨h.anchor.trans (hanchor.trans h'.anchor.symm), hfees, h.owner.trans (howner.trans h'.owner.symm), hinputs,
    houtputs, hbitmap, h.coinbase.trans h'.coinbase.symm⟩

/-- **One layout for a payment**: its owner, anchor, fee, contract bits and live entries determine a spend. -/
theorem spend_unique {hashPages : List TxPage → Digest} {facts facts' : PagedSpendFacts}
    (hfit : ∀ p ∈ pages, p.body.validityBitmap < 2 ^ 16) (hfit' : ∀ p ∈ pages', p.body.validityBitmap < 2 ^ 16)
    (h : validatePagedSpend hashPages pages = .ok facts) (h' : validatePagedSpend hashPages pages' = .ok facts')
    (howner : facts.inputOwner = facts'.inputOwner) (hanchor : facts.epochAnchor = facts'.epochAnchor)
    (hfee : facts.fee = facts'.fee) (hbits : pages.map TxPage.contractBits = pages'.map TxPage.contractBits)
    (hin : spendInputs pages = spendInputs pages') (hout : spendOutputs pages = spendOutputs pages') :
    pages = pages' := by
  obtain ⟨first, hok, hl, hfo, hfa, hff⟩ := validatePagedSpend_layout h
  obtain ⟨first', hok', hl', hfo', hfa', hff'⟩ := validatePagedSpend_layout h'
  have hlen : pages.length = pages'.length := by rw [hl.count, hl'.count, hin, hout]
  have hins := inputCells_unique hok hok' hlen hl hl' hin
  have houts := outputCells_unique hok hok' hlen hl hl' hout
  refine ext_getElem hlen fun i hi hi' => ?_
  have hplaced' := placedPage hok' hl' hfit' hi'
  rw [← hlen] at hplaced'
  -- the three lists agree at every place
  have hat : ∀ {β : Type} {f : TxPage → β}, pages.map f = pages'.map f → f pages[i] = f pages'[i] := by
    intro β f hmap
    have hget := congrArg (fun l => l[i]?) hmap
    simp only [getElem?_map, getElem?_eq_getElem hi, getElem?_eq_getElem hi', Option.map_some,
      Option.some.injEq] at hget
    exact hget
  exact (placedPage hok hl hfit hi).ext hplaced' (by rw [← hfo, ← hfo', howner]) (by rw [← hfa, ← hfa', hanchor])
    (by rw [← hff, ← hff', hfee]) (hat hbits) (hat hins) (hat houts)

end

end Noid.Tx
