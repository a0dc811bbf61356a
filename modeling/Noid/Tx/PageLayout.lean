import Noid.Tx.NativePages

/-! # The layout of a native group

The pages that `layPages` builds are the pages of plans: the inputs in order, cut where the owner changes or a page is
full, and the outputs in order, two a page.  Pages of such plans pass the framing check. -/

namespace Noid.Tx

open Noid.Lib List

/-- The content of a data page. -/
structure PagePlan where
  owner : Address
  ins : List TxInput
  outs : List TxOutput
  ins_le : ins.length ≤ TX_INPUTS
  outs_le : outs.length ≤ TX_OUTPUTS

open PagePlan

def pageBitmap (last : Bool) (nInput nOutput : ℕ) : ℕ :=
  NATIVE_PAGE_BIT ||| (if last then PAGED_SPEND_END_BIT else 0) ||| (2 ^ nInput - 1) |||
    (2 ^ nOutput - 1) * 2 ^ TX_INPUTS

section
variable (anchor : Digest)

def PagePlan.body (last : Bool) (p : PagePlan) : TxBody where
  epochAnchor := anchor
  fee := 0
  inputOwner := p.owner
  inputs := padTo TX_INPUTS .dummy p.ins
  outputs := padTo TX_OUTPUTS .dummy p.outs
  validityBitmap := pageBitmap last p.ins.length p.outs.length
  isCoinbase := false

/-! ### Bitmaps -/

/-- Everything that is read off the bitmap of a page. -/
@[mk_iff] structure BitmapSpec (last : Bool) (n m : ℕ) : Prop where
  input : ∀ i < TX_INPUTS, (pageBitmap last n m).testBit i = decide (i < n)
  output : ∀ i < TX_OUTPUTS, (pageBitmap last n m).testBit (TX_INPUTS + i) = decide (i < m)
  marker : pageBitmap last n m &&& MARKER_MASK = NATIVE_PAGE_BIT ||| (if last then PAGED_SPEND_END_BIT else 0)
  inputs : pageBitmap last n m &&& 0xff = 2 ^ n - 1
  outputs : pageBitmap last n m &&& 3 * 2 ^ TX_INPUTS = (2 ^ m - 1) * 2 ^ TX_INPUTS
  addInput : n < TX_INPUTS → pageBitmap last n m ||| 2 ^ n = pageBitmap last (n + 1) m
  addOutput : m < TX_OUTPUTS → pageBitmap last n m ||| outputBitmapBit m = pageBitmap last n (m + 1)
  markEnd : pageBitmap last n m ||| PAGED_SPEND_END_BIT = pageBitmap true n m

lemma bitmapSpec (last : Bool) {n m : ℕ} (hn : n ≤ TX_INPUTS) (hm : m ≤ TX_OUTPUTS) :
    BitmapSpec last n m := by
  have key : ∀ last : Bool, ∀ n < 9, ∀ m < 3, BitmapSpec last n m := by
    simp only [bitmapSpec_iff]
    decide +kernel
  unfold TX_INPUTS at hn
  unfold TX_OUTPUTS at hm
  exact key last n (by omega) m (by omega)

namespace PagePlan

variable {anchor} {last : Bool} (p : PagePlan)

lemma bitmap (last : Bool) : BitmapSpec last p.ins.length p.outs.length := bitmapSpec last p.ins_le p.outs_le

lemma inputIsLive {i : ℕ} (hi : i < TX_INPUTS) :
    (p.body anchor last).inputIsLive i = decide (i < p.ins.length) := by
  rw [TxBody.inputIsLive, decide_eq_true hi, Bool.true_and]
  exact (p.bitmap last).input i hi

lemma outputIsLive {i : ℕ} (hi : i < TX_OUTPUTS) :
    (p.body anchor last).outputIsLive i = decide (i < p.outs.length) := by
  rw [TxBody.outputIsLive, decide_eq_true hi, Bool.true_and]
  exact (p.bitmap last).output i hi

@[simp] lemma liveInputs : (p.body anchor last).liveInputs = p.ins :=
  live_padTo p.ins_le fun _ hi => p.inputIsLive hi

@[simp] lemma liveOutputs : (p.body anchor last).liveOutputs = p.outs :=
  live_padTo p.outs_le fun _ hi => p.outputIsLive hi

@[simp] lemma liveInputCount : (p.body anchor last).liveInputCount = p.ins.length := by
  rw [TxBody.liveInputCount, liveInputs]

@[simp] lemma liveOutputCount : (p.body anchor last).liveOutputCount = p.outs.length := by
  rw [TxBody.liveOutputCount, liveOutputs]

/-- A page of an owner without actions. -/
def owned (owner : Address) : PagePlan := ⟨owner, [], [], by simp, by simp⟩

lemma body_owned (owner : Address) :
    (owned owner).body anchor false = { emptyPage anchor with inputOwner := owner } := by
  have hbits : pageBitmap false 0 0 = NATIVE_PAGE_BIT := by decide
  simp only [body, owned, padTo_nil, length_nil, hbits, emptyPage]

/-- A page without actions. -/
def blank : PagePlan := owned 0

lemma body_blank : blank.body anchor false = emptyPage anchor := body_owned 0

def start (c : NativeInputClaim) : PagePlan := ⟨c.root, [c.input], [], by simp [TX_INPUTS], by simp⟩

def addInput (x : TxInput) (h : p.ins.length < TX_INPUTS) : PagePlan :=
  { p with ins := p.ins ++ [x], ins_le := by rw [length_append, length_singleton]; omega }

lemma body_addInput (x : TxInput) (h : p.ins.length < TX_INPUTS) :
    (p.body anchor last).addInput x = (p.addInput x h).body anchor last := by
  have hbits := (p.bitmap last).addInput h
  unfold TxBody.addInput
  rw [liveInputCount]
  simp only [body, addInput, padTo_set, hbits, length_append, length_singleton]

def withOuts (outs : List TxOutput) (h : outs.length ≤ TX_OUTPUTS) : PagePlan :=
  { p with outs := outs, outs_le := h }

lemma body_setOutput (x : TxOutput) (h : (p.outs ++ [x]).length ≤ TX_OUTPUTS) :
    (p.body anchor last).setOutput p.outs.length x = (p.withOuts (p.outs ++ [x]) h).body anchor last := by
  have hlt : p.outs.length < TX_OUTPUTS := by
    rw [length_append, length_singleton] at h
    omega
  have hbits := (p.bitmap last).addOutput hlt
  unfold TxBody.setOutput
  simp only [body, withOuts, padTo_set, hbits, length_append, length_singleton]

lemma body_markEnd : (p.body anchor last).markEnd = p.body anchor true := by
  unfold TxBody.markEnd
  simp only [body, (p.bitmap last).markEnd]

end PagePlan

/-! ### Placing the inputs -/

/-- The plans of a list of claims behind a page that is being filled. -/
def cutFrom (p : PagePlan) : List NativeInputClaim → List PagePlan
  | [] => [p]
  | c :: rest =>
    if h : p.owner = c.root ∧ p.ins.length < TX_INPUTS then cutFrom (p.addInput c.input h.2) rest
    else p :: cutFrom (.start c) rest

/-- The inputs of an operation, cut into pages where the owner changes or a page is full. -/
def inputPlans : List NativeInputClaim → List PagePlan
  | [] => []
  | c :: rest => cutFrom (.start c) rest

variable {anchor}

lemma onLast_concat (f : TxBody → TxBody) (data : List TxBody) (page : TxBody) :
    onLast f (data ++ [page]) = .ok (data ++ [f page]) := by
  simp [onLast, orElseThrow, Bind.bind, Except.bind, pure, Except.pure]

lemma placeInput_new {data : List TxBody} {c : NativeInputClaim} (hnew : newPage c data.getLast? = true)
    (hroom : data.length + 1 < MAX_PAGED_SPEND_PAGES) :
    placeInput anchor data c = .ok (data ++ [(start c).body anchor false]) := by
  have hpush : pushPage data { emptyPage anchor with inputOwner := c.root } =
      .ok (data ++ [{ emptyPage anchor with inputOwner := c.root }]) := by
    rw [pushPage, require_bind hroom]
    rfl
  have hfits : (owned c.root).ins.length < TX_INPUTS := by simp [owned, TX_INPUTS]
  rw [placeInput, if_pos hnew, bind_of_ok hpush]
  refine (onLast_concat _ _ _).trans ?_
  rw [← body_owned, body_addInput _ _ hfits]
  rfl

variable {p : PagePlan} {inputs : List NativeInputClaim} {plans : List PagePlan}
  {outputs : List NativeOutputClaim} {outs : List TxOutput}

lemma newPage_body {c : NativeInputClaim} :
    newPage c (some (p.body anchor false)) = true ↔ ¬(p.owner = c.root ∧ p.ins.length < TX_INPUTS) := by
  have hle := p.ins_le
  rw [newPage, liveInputCount, decide_eq_true_eq]
  constructor
  · rintro (h | h) ⟨ho, hlt⟩
    · exact h ho
    · omega
  · intro h
    by_cases ho : p.owner = c.root
    · have hge : ¬p.ins.length < TX_INPUTS := fun hlt => h ⟨ho, hlt⟩
      exact .inr (by omega)
    · exact .inl ho

lemma cutFrom_length_pos (p : PagePlan) (rest : List NativeInputClaim) : 0 < (cutFrom p rest).length := by
  fun_induction cutFrom p rest with
  | case1 p => simp
  | case2 p c rest h ih => exact ih
  | case3 p c rest h ih => simp

/-- The loop over the inputs, with some pages behind it and one being filled. -/
theorem foldlM_placeInput : ∀ (rest : List NativeInputClaim) (front : List PagePlan) (p : PagePlan),
    (front ++ cutFrom p rest).length < MAX_PAGED_SPEND_PAGES →
    rest.foldlM (placeInput anchor) ((front ++ [p]).map (body anchor false)) =
      .ok ((front ++ cutFrom p rest).map (body anchor false))
  | [], _, _, _ => rfl
  | c :: rest, front, p, hlen => by
    have hlast : ((front ++ [p]).map (body anchor false)).getLast? = some (p.body anchor false) := by
      simp
    unfold cutFrom at hlen ⊢
    rw [foldlM_cons]
    split_ifs at hlen ⊢ with hfit
    · have hold : newPage c (some (p.body anchor false)) = false := by
        rw [← Bool.not_eq_true, newPage_body, not_not]
        exact hfit
      have hplace : placeInput anchor ((front ++ [p]).map (body anchor false)) c =
          .ok ((front ++ [p.addInput c.input hfit.2]).map (body anchor false)) := by
        rw [placeInput, hlast, hold, if_neg Bool.false_ne_true, map_append, map_append]
        exact (onLast_concat _ _ _).trans (by rw [body_addInput _ _ hfit.2]; rfl)
      rw [bind_of_ok hplace]
      exact foldlM_placeInput rest front _ hlen
    · have hnew : newPage c ((front ++ [p]).map (body anchor false)).getLast? = true := by
        rw [hlast]
        exact newPage_body.mpr hfit
      have hcut := cutFrom_length_pos (.start c) rest
      have hroom : ((front ++ [p]).map (body anchor false)).length + 1 < MAX_PAGED_SPEND_PAGES := by
        simp only [length_append, length_cons, length_map, length_nil] at hlen ⊢
        omega
      rw [bind_of_ok (placeInput_new hnew hroom)]
      rw [show front ++ p :: cutFrom (.start c) rest = (front ++ [p]) ++ cutFrom (.start c) rest by simp]
        at hlen ⊢
      have ih := foldlM_placeInput rest (front ++ [p]) (.start c) hlen
      rwa [map_append] at ih

lemma foldlM_placeInput_ok (hlen : (inputPlans inputs).length < MAX_PAGED_SPEND_PAGES) :
    inputs.foldlM (placeInput anchor) [] = .ok ((inputPlans inputs).map (body anchor false)) := by
  cases inputs with
  | nil => rfl
  | cons c rest =>
    have hroom : ([] : List TxBody).length + 1 < MAX_PAGED_SPEND_PAGES := by decide
    rw [foldlM_cons, bind_of_ok (placeInput_new rfl hroom)]
    exact foldlM_placeInput rest [] (.start c) hlen

/-! ### Placing the outputs -/

lemma length_one_le (a : TxOutput) : [a].length ≤ TX_OUTPUTS := by simp [TX_OUTPUTS]

lemma length_two_le (a b : TxOutput) : [a, b].length ≤ TX_OUTPUTS := by simp [TX_OUTPUTS]

/-- The plans of an operation: two outputs a page, on new pages behind the inputs if need be. -/
def withOutputs : List PagePlan → List TxOutput → List PagePlan
  | plans, [] => plans
  | plans, [a] => (plans.headD .blank).withOuts [a] (length_one_le a) :: plans.tail
  | plans, a :: b :: rest =>
    (plans.headD .blank).withOuts [a, b] (length_two_le a b) :: withOutputs plans.tail rest

lemma length_withOutputs (plans : List PagePlan) (outs : List TxOutput) :
    (withOutputs plans outs).length = max plans.length ((outs.length + 1) / 2) := by
  fun_induction withOutputs plans outs with
  | case1 plans => simp
  | case2 plans a => cases plans <;> simp
  | case3 plans a b rest ih =>
    rw [length_cons, ih]
    cases plans <;> simp <;> omega

lemma modify_append_cons {α : Type} (f : α → α) (front : List α) (x : α) (rest : List α) :
    (front ++ x :: rest).modify front.length f = front ++ f x :: rest := by
  induction front with
  | nil => rfl
  | cons a front ih => simpa using ih

lemma placeOutput_at {front : List PagePlan} {c : NativeOutputClaim}
    (h : (p.outs ++ [c.output]).length ≤ TX_OUTPUTS) :
    placeOutput anchor ((front ++ p :: plans).map (body anchor false))
        (c, 2 * front.length + p.outs.length) =
      .ok ((front ++ p.withOuts (p.outs ++ [c.output]) h :: plans).map (body anchor false)) := by
  have hlt : p.outs.length < 2 := by
    rw [length_append, length_singleton, TX_OUTPUTS] at h
    omega
  have hpage : (2 * front.length + p.outs.length) / TX_OUTPUTS = front.length := by
    rw [TX_OUTPUTS]
    omega
  have hindex : (2 * front.length + p.outs.length) % TX_OUTPUTS = p.outs.length := by
    rw [TX_OUTPUTS]
    omega
  unfold placeOutput
  simp only [hpage, hindex]
  rw [if_neg (by simp)]
  refine congrArg Except.ok ?_
  have hmodify := modify_append_cons (fun body : TxBody => body.setOutput p.outs.length c.output)
    (front.map (body anchor false)) (p.body anchor false) (plans.map (body anchor false))
  rw [length_map] at hmodify
  rw [map_append, map_cons, hmodify, body_setOutput _ _ h, map_append, map_cons]

lemma placeOutput_first {front : List PagePlan} {c : NativeOutputClaim}
    (hbare : ∀ p ∈ plans, p.outs = []) (hroom : front.length + 1 < MAX_PAGED_SPEND_PAGES) :
    placeOutput anchor ((front ++ plans).map (body anchor false)) (c, 2 * front.length) =
      .ok ((front ++ (plans.headD .blank).withOuts [c.output] (length_one_le _) :: plans.tail).map
        (body anchor false)) := by
  -- both cases are the placement on a page without outputs
  have hplace : ∀ (p : PagePlan) (plans : List PagePlan), p.outs = [] →
      placeOutput anchor ((front ++ p :: plans).map (body anchor false)) (c, 2 * front.length) =
        .ok ((front ++ p.withOuts [c.output] (length_one_le _) :: plans).map
          (body anchor false)) := by
    intro p plans hnil
    have hfits : (p.outs ++ [c.output]).length ≤ TX_OUTPUTS := by simp [hnil, TX_OUTPUTS]
    have hat : placeOutput anchor ((front ++ p :: plans).map (body anchor false))
        (c, 2 * front.length + p.outs.length) = _ := placeOutput_at hfits
    simpa [hnil] using hat
  cases plans with
  | cons p plans => exact hplace p plans (hbare p (by simp))
  | nil =>
    have hnew := hplace .blank [] rfl
    have hpage : 2 * front.length / TX_OUTPUTS = front.length := by
      rw [TX_OUTPUTS]
      omega
    refine Eq.trans ?_ hnew
    unfold placeOutput
    simp only [hpage]
    rw [if_pos (by simp), if_neg (by simp), pushPage, require_bind (by simpa using hroom), body_blank.symm]
    simp only [append_nil, map_append, map_cons, map_nil]

lemma foldlM_placeOutput : ∀ (outputs : List NativeOutputClaim) (front plans : List PagePlan),
    (∀ p ∈ plans, p.outs = []) →
    (front ++ withOutputs plans (outputs.map (·.output))).length < MAX_PAGED_SPEND_PAGES →
    (outputs.zipIdx (2 * front.length)).foldlM (placeOutput anchor)
        ((front ++ plans).map (body anchor false)) =
      .ok ((front ++ withOutputs plans (outputs.map (·.output))).map (body anchor false))
  | [], front, plans, _, _ => rfl
  | [a], front, plans, hbare, hlen => by
    have hroom : front.length + 1 < MAX_PAGED_SPEND_PAGES := by
      simp only [map_cons, map_nil, withOutputs, length_append, length_cons] at hlen
      omega
    rw [zipIdx_cons, zipIdx_nil, foldlM_cons, bind_of_ok (placeOutput_first hbare hroom)]
    rfl
  | a :: b :: rest, front, plans, hbare, hlen => by
    simp only [map_cons, withOutputs] at hlen ⊢
    have hroom : front.length + 1 < MAX_PAGED_SPEND_PAGES := by
      simp only [length_append, length_cons] at hlen
      omega
    have hsecond : placeOutput anchor ((front ++ (plans.headD .blank).withOuts [a.output] (length_one_le _) ::
        plans.tail).map (body anchor false)) (b, 2 * front.length + 1) =
        .ok ((front ++ (plans.headD .blank).withOuts [a.output, b.output] (length_two_le _ _) ::
          plans.tail).map (body anchor false)) :=
      placeOutput_at (p := (plans.headD .blank).withOuts [a.output] (length_one_le _))
        (length_two_le a.output b.output)
    rw [zipIdx_cons, zipIdx_cons, foldlM_cons, bind_of_ok (placeOutput_first hbare hroom),
      foldlM_cons, bind_of_ok hsecond]
    have hsplit : ∀ (p : PagePlan) (tail : List PagePlan), front ++ p :: tail = (front ++ [p]) ++ tail := by
      simp
    rw [hsplit _ (withOutputs plans.tail (rest.map (·.output)))] at hlen ⊢
    rw [hsplit _ plans.tail]
    have hloop := foldlM_placeOutput _ _ _ (fun p hp => hbare p (mem_of_mem_tail hp)) hlen
    rw [length_append, length_singleton] at hloop
    exact hloop

/-! ### The pages of a group -/

/-- The pages of a list of plans, the last one marked. -/
def bodies (anchor : Digest) : List PagePlan → List TxBody
  | [] => []
  | p :: rest => p.body anchor rest.isEmpty :: bodies anchor rest

lemma length_bodies (anchor : Digest) (plans : List PagePlan) : (bodies anchor plans).length = plans.length := by
  induction plans with
  | nil => rfl
  | cons p rest ih => simp [bodies, ih]

lemma bodies_concat (anchor : Digest) (plans : List PagePlan) (p : PagePlan) :
    bodies anchor (plans ++ [p]) = plans.map (body anchor false) ++ [p.body anchor true] := by
  induction plans with
  | nil => rfl
  | cons q plans ih =>
    have hmore : (plans ++ [p]).isEmpty = false := by cases plans <;> rfl
    rw [cons_append, bodies, hmore, ih]
    rfl

def claimPlans (inputs : List NativeInputClaim) (outputs : List NativeOutputClaim) : List PagePlan :=
  withOutputs (inputPlans inputs) (outputs.map (·.output))

lemma inputPlans_all {P : PagePlan → Prop} (hstart : ∀ c, P (.start c)) (hadd : ∀ p x h, P p → P (p.addInput x h))
    (inputs : List NativeInputClaim) : ∀ q ∈ inputPlans inputs, P q := by
  have hcut : ∀ (p : PagePlan) (rest : List NativeInputClaim), P p → ∀ q ∈ cutFrom p rest, P q := by
    intro p rest h
    fun_induction cutFrom p rest with
    | case1 p => simpa using h
    | case2 p c rest hfit ih => exact ih (hadd _ _ _ h)
    | case3 p c rest hfit ih => exact forall_mem_cons.mpr ⟨h, ih (hstart c)⟩
  cases inputs with
  | nil => exact forall_mem_nil _
  | cons c rest => exact hcut _ rest (hstart c)

lemma inputPlans_bare : ∀ inputs, ∀ q ∈ inputPlans inputs, q.outs = [] :=
  inputPlans_all (fun _ => rfl) fun _ _ _ h => h

lemma inputPlans_ins : ∀ inputs, ∀ q ∈ inputPlans inputs, q.ins ≠ [] :=
  inputPlans_all (fun _ => cons_ne_nil _ _) fun _ _ _ _ => by simp [addInput]

lemma inputPlans_length_pos (h : inputs ≠ []) :
    0 < (inputPlans inputs).length := by
  cases inputs with
  | nil => exact absurd rfl h
  | cons c rest => exact cutFrom_length_pos _ _

/-- **The pages of an operation that fits the page limit.** -/
theorem layPages_ok (hne : inputs ≠ []) (hlen : (claimPlans inputs outputs).length < MAX_PAGED_SPEND_PAGES) :
    layPages anchor inputs outputs = .ok (bodies anchor (claimPlans inputs outputs)) := by
  unfold claimPlans at hlen ⊢
  have hlength := length_withOutputs (inputPlans inputs) (outputs.map (·.output))
  have hpos := inputPlans_length_pos hne
  have hins : (inputPlans inputs).length < MAX_PAGED_SPEND_PAGES := by omega
  have houts : outputs.zipIdx.foldlM (placeOutput anchor) ((inputPlans inputs).map (body anchor false)) =
      .ok ((withOutputs (inputPlans inputs) (outputs.map (·.output))).map (body anchor false)) :=
    foldlM_placeOutput outputs [] (inputPlans inputs) (inputPlans_bare inputs) hlen
  rw [layPages, bind_of_ok (foldlM_placeInput_ok hins), bind_of_ok houts]
  obtain ⟨plans, p, hplans⟩ : ∃ plans p, withOutputs (inputPlans inputs) (outputs.map (·.output)) = plans ++ [p] := by
    refine ⟨_, _, (dropLast_append_getLast ?_).symm⟩
    rw [← length_pos_iff]
    omega
  rw [hplans, bodies_concat, map_append, map_singleton, onLast_concat, body_markEnd]

/-! ### Reading the pages back -/

def PagePlan.reads (p : PagePlan) : List (TxInput × Address) := p.ins.map fun i => (i, p.owner)

lemma cutFrom_reads (p : PagePlan) (rest : List NativeInputClaim) :
    (cutFrom p rest).flatMap reads = p.reads ++ rest.map fun c => (c.input, c.root) := by
  fun_induction cutFrom p rest with
  | case1 p => simp
  | case2 p c rest hfit ih =>
    rw [ih]
    simp [reads, addInput, hfit.1]
  | case3 p c rest hfit ih =>
    rw [flatMap_cons, ih]
    simp [reads, start]

lemma inputPlans_reads (inputs : List NativeInputClaim) :
    (inputPlans inputs).flatMap reads = inputs.map fun c => (c.input, c.root) := by
  cases inputs with
  | nil => rfl
  | cons c rest => exact cutFrom_reads _ _

lemma withOutputs_reads (plans : List PagePlan) (outs : List TxOutput) :
    (withOutputs plans outs).flatMap reads = plans.flatMap reads := by
  fun_induction withOutputs plans outs with
  | case1 plans => rfl
  | case2 plans a => cases plans <;> simp [reads, withOuts, blank, owned]
  | case3 plans a b rest ih =>
    rw [flatMap_cons, ih]
    cases plans <;> simp [reads, withOuts, blank, owned]

lemma withOutputs_outs (h : ∀ p ∈ plans, p.outs = []) : (withOutputs plans outs).flatMap PagePlan.outs = outs := by
  fun_induction withOutputs plans outs with
  | case1 plans => simpa using h
  | case2 plans a =>
    rw [flatMap_cons, flatMap_eq_nil_iff.mpr fun p hp => h p (mem_of_mem_tail hp)]
    rfl
  | case3 plans a b rest ih =>
    rw [flatMap_cons, ih fun p hp => h p (mem_of_mem_tail hp)]
    rfl

lemma liveInputClaims_bodies (plans : List PagePlan) :
    liveInputClaims (bodies anchor plans) = plans.flatMap reads := by
  induction plans with
  | nil => rfl
  | cons p rest ih =>
    unfold liveInputClaims at ih ⊢
    rw [bodies, flatMap_cons, ih, liveInputs]
    rfl

lemma liveOutputClaims_bodies (plans : List PagePlan) :
    liveOutputClaims (bodies anchor plans) = plans.flatMap PagePlan.outs := by
  induction plans with
  | nil => rfl
  | cons p rest ih =>
    unfold liveOutputClaims at ih ⊢
    rw [bodies, flatMap_cons, ih, liveOutputs]
    rfl

/-- **The inputs of an operation are read back in their order.** -/
theorem claimPlans_inputs (inputs : List NativeInputClaim) (outputs : List NativeOutputClaim) :
    liveInputClaims (bodies anchor (claimPlans inputs outputs)) = inputs.map fun c => (c.input, c.root) := by
  rw [liveInputClaims_bodies, claimPlans, withOutputs_reads, inputPlans_reads]

/-- **The outputs of an operation are read back in their order.** -/
theorem claimPlans_outputs (inputs : List NativeInputClaim) (outputs : List NativeOutputClaim) :
    liveOutputClaims (bodies anchor (claimPlans inputs outputs)) = outputs.map (·.output) := by
  rw [liveOutputClaims_bodies, claimPlans, withOutputs_outs (inputPlans_bare inputs)]

/-! ### Framing -/

/-- Plans whose pages are framed: none idle, an owner exactly with inputs, and no gaps. -/
structure Framed (plans : List PagePlan) : Prop where
  busy : ∀ p ∈ plans, ¬(p.ins = [] ∧ p.outs = [])
  owner : ∀ p ∈ plans, (p.owner = 0 ↔ p.ins = [])
  ins_tail : plans.Pairwise fun p q => p.ins = [] → q.ins = []
  outs_tail : plans.Pairwise fun p q => p.outs.length < TX_OUTPUTS → q.outs = []

lemma scanEntries_ok {α : Type} [DecidableEq α] {slot : α → ℕ} {dup : NativeWireError} {dummy : α}
    {live : ℕ → Bool} : ∀ {l : List (α × ℕ)} {slots : List ℕ}, (∀ e ∈ l, live e.2 = false → e.1 = dummy) →
      (slots ++ ((l.filter fun e => live e.2).map Prod.fst).map slot).Nodup →
      scanEntries slot dup dummy live slots l = .ok (slots ++ ((l.filter fun e => live e.2).map Prod.fst).map slot)
  | [], slots, _, _ => by simp [scanEntries]
  | (x, i) :: rest, slots, hdead, hnd => by
    have hdead' : ∀ e ∈ rest, live e.2 = false → e.1 = dummy := fun e he => hdead e (.tail _ he)
    unfold scanEntries
    by_cases hlive : live i = true
    · have hsplit : slots ++ ((((x, i) :: rest).filter fun e => live e.2).map Prod.fst).map slot =
          (slots ++ [slot x]) ++ ((rest.filter fun e => live e.2).map Prod.fst).map slot := by
        simp [hlive]
      rw [hsplit] at hnd ⊢
      have hfresh : slot x ∉ slots := by
        have hnd' := hnd.of_append_left
        rw [nodup_append] at hnd'
        intro hmem
        exact hnd'.2.2 _ hmem _ (by simp) rfl
      rw [if_pos hlive, require_bind hfresh, scanEntries_ok hdead' hnd]
    · have hskip : (((x, i) :: rest).filter fun e => live e.2) = rest.filter fun e => live e.2 := by
        simp [hlive]
      rw [hskip] at hnd ⊢
      have hx : x = dummy := hdead (x, i) (by simp) (by simpa using hlive)
      rw [if_neg hlive, require_bind hx, scanEntries_ok hdead' hnd]

lemma scanEntries_padTo {α : Type} [DecidableEq α] {slot : α → ℕ} {dup : NativeWireError} {dummy : α}
    {live : ℕ → Bool} {n : ℕ} {l : List α} {slots : List ℕ} (hl : l.length ≤ n)
    (hlive : ∀ i < n, live i = decide (i < l.length)) (hnd : (slots ++ l.map slot).Nodup) :
    scanEntries slot dup dummy live slots (padTo n dummy l).toList.zipIdx = .ok (slots ++ l.map slot) := by
  rw [scanEntries_ok, live_padTo hl hlive]
  · intro e he hdead
    rw [hlive e.2 (by simpa using (mem_zipIdx he).2.1)] at hdead
    exact dead_padTo he (by simpa using hdead)
  · rwa [live_padTo hl hlive]

namespace PagePlan

def inSlots (p : PagePlan) : List ℕ := p.ins.map TxInput.slotIndex

def outSlots (p : PagePlan) : List ℕ := p.outs.map TxOutput.slotIndex

lemma scan_inputs {p : PagePlan} {last : Bool} {slots : List ℕ} (hnd : (slots ++ p.inSlots).Nodup) :
    scanEntries TxInput.slotIndex .inputLayout .dummy (p.body anchor last).inputIsLive slots
      (p.body anchor last).inputs.toList.zipIdx = .ok (slots ++ p.inSlots) :=
  scanEntries_padTo p.ins_le (fun _ hi => p.inputIsLive hi) hnd

lemma scan_outputs {p : PagePlan} {last : Bool} {slots : List ℕ} (hnd : (slots ++ p.outSlots).Nodup) :
    scanEntries TxOutput.slotIndex .outputLayout .dummy (p.body anchor last).outputIsLive slots
      (p.body anchor last).outputs.toList.zipIdx = .ok (slots ++ p.outSlots) :=
  scanEntries_padTo p.outs_le (fun _ hi => p.outputIsLive hi) hnd

lemma scanPage_ok {p : PagePlan} {last : Bool} {s : PageScan} (hbusy : ¬(p.ins = [] ∧ p.outs = []))
    (howner : p.owner = 0 ↔ p.ins = []) (hin : s.inputTail = true → p.ins = [])
    (hout : s.outputTail = true → p.outs = []) (hins : (s.inputSlots ++ p.inSlots).Nodup)
    (houts : (s.outputSlots ++ p.outSlots).Nodup) :
    scanPage anchor last s (p.body anchor last) =
      .ok { inputSlots := s.inputSlots ++ p.inSlots, outputSlots := s.outputSlots ++ p.outSlots
            inputTail := s.inputTail || decide (p.ins.length = 0)
            outputTail := s.outputTail || decide (p.outs.length < TX_OUTPUTS) } := by
  have hbits := p.bitmap last
  have hbusy' : ¬(p.ins.length = 0 ∧ p.outs.length = 0) := by simpa using hbusy
  have hinput : ¬(p.ins.length ≠ 0 ∧ s.inputTail = true) ∧
      ((p.body anchor last).inputOwner = 0 ↔ p.ins.length = 0) := by
    refine ⟨?_, by rw [length_eq_zero_iff]; exact howner⟩
    rintro ⟨hne, htail⟩
    exact hne (by rw [hin htail, length_nil])
  have houtput : ¬(p.outs.length ≠ 0 ∧ s.outputTail = true) ∧
      (p.body anchor last).validityBitmap &&& 3 * 2 ^ TX_INPUTS = (2 ^ p.outs.length - 1) * 2 ^ TX_INPUTS := by
    refine ⟨?_, hbits.outputs⟩
    rintro ⟨hne, htail⟩
    exact hne (by rw [hout htail, length_nil])
  have hbitmap : (p.body anchor last).validityBitmap &&& 0xff = 2 ^ p.ins.length - 1 := hbits.inputs
  unfold scanPage
  rw [require_bind ⟨rfl, rfl, rfl, hbits.marker⟩]
  simp only [liveInputCount, liveOutputCount]
  rw [require_bind hbusy', require_bind hinput, require_bind hbitmap,
    require_bind houtput, bind_of_ok (scan_inputs hins), bind_of_ok (scan_outputs houts)]
  rfl

end PagePlan

/-- **Framed pages pass the scan**, which collects their slots. -/
theorem scanPages_ok : ∀ {plans : List PagePlan} {s : PageScan}, Framed plans →
    (s.inputTail = true → ∀ p ∈ plans, p.ins = []) → (s.outputTail = true → ∀ p ∈ plans, p.outs = []) →
    (s.inputSlots ++ plans.flatMap inSlots).Nodup →
    (s.outputSlots ++ plans.flatMap outSlots).Nodup →
    ∃ tail tail', scanPages anchor s (bodies anchor plans) =
      .ok ⟨s.inputSlots ++ plans.flatMap inSlots, s.outputSlots ++ plans.flatMap outSlots,
        tail, tail'⟩
  | [], s, _, _, _, _, _ => ⟨s.inputTail, s.outputTail, by simp [scanPages, bodies]⟩
  | p :: plans, s, hf, hin, hout, hins, houts => by
    obtain ⟨hbusy, howner, hins_tail, houts_tail⟩ := hf
    rw [flatMap_cons, ← append_assoc] at hins houts ⊢
    rw [pairwise_cons] at hins_tail houts_tail
    rw [bodies, scanPages, flatMap_cons, ← append_assoc]
    have hempty : (bodies anchor plans).isEmpty = plans.isEmpty := by
      cases plans <;> rfl
    rw [hempty, bind_of_ok (scanPage_ok (hbusy p (by simp)) (howner p (by simp))
      (fun h => hin h p (by simp)) (fun h => hout h p (by simp)) hins.of_append_left houts.of_append_left)]
    refine scanPages_ok ⟨fun q hq => hbusy q (.tail _ hq),
      fun q hq => howner q (.tail _ hq), hins_tail.2, houts_tail.2⟩ ?_ ?_ hins houts
    · intro h q hq
      rcases Bool.or_eq_true_iff.mp h with h | h
      · exact hin h q (.tail _ hq)
      · exact hins_tail.1 q hq (by simpa using h)
    · intro h q hq
      rcases Bool.or_eq_true_iff.mp h with h | h
      · exact hout h q (.tail _ hq)
      · exact houts_tail.1 q hq (by simpa using h)

lemma mem_withOutputs_ins :
    ∀ q ∈ withOutputs plans outs, q.owner = 0 ∧ q.ins = [] ∨ ∃ p ∈ plans, q.owner = p.owner ∧ q.ins = p.ins := by
  have hhead : ∀ (plans : List PagePlan) (outs : List TxOutput) (h : outs.length ≤ TX_OUTPUTS),
      ((plans.headD .blank).withOuts outs h).owner = 0 ∧ ((plans.headD .blank).withOuts outs h).ins = [] ∨
        ∃ p ∈ plans, ((plans.headD .blank).withOuts outs h).owner = p.owner ∧
          ((plans.headD .blank).withOuts outs h).ins = p.ins := by
    intro plans outs h
    cases plans with
    | nil => exact .inl ⟨rfl, rfl⟩
    | cons p plans => exact .inr ⟨p, by simp, rfl, rfl⟩
  fun_induction withOutputs plans outs with
  | case1 plans => exact fun q hq => .inr ⟨q, hq, rfl, rfl⟩
  | case2 plans a =>
    refine forall_mem_cons.mpr ⟨hhead plans _ _, ?_⟩
    exact fun q hq => .inr ⟨q, mem_of_mem_tail hq, rfl, rfl⟩
  | case3 plans a b rest ih =>
    refine forall_mem_cons.mpr ⟨hhead plans _ _, fun q hq => ?_⟩
    rcases ih q hq with h | ⟨p, hp, h⟩
    · exact .inl h
    · exact .inr ⟨p, mem_of_mem_tail hp, h⟩

lemma Framed.cons (h : Framed plans) (hbusy : ¬(p.ins = [] ∧ p.outs = []))
    (howner : p.owner = 0 ↔ p.ins = []) (hins : p.ins = [] → ∀ q ∈ plans, q.ins = [])
    (houts : p.outs.length < TX_OUTPUTS → ∀ q ∈ plans, q.outs = []) : Framed (p :: plans) where
  busy := forall_mem_cons.mpr ⟨hbusy, h.busy⟩
  owner := forall_mem_cons.mpr ⟨howner, h.owner⟩
  ins_tail := pairwise_cons.mpr ⟨fun q hq hp => hins hp q hq, h.ins_tail⟩
  outs_tail := pairwise_cons.mpr ⟨fun q hq hp => houts hp q hq, h.outs_tail⟩

lemma framed_withOutputs (hplans : ∀ p ∈ plans, p.outs = [] ∧ p.ins ≠ [] ∧ p.owner ≠ 0) :
    Framed (withOutputs plans outs) := by
  have hsame : ∀ {plans : List PagePlan}, (∀ p ∈ plans, p.outs = [] ∧ p.ins ≠ [] ∧ p.owner ≠ 0) → Framed plans := by
    intro plans h
    exact {
      busy := fun p hp hnil => (h p hp).2.1 hnil.1
      owner := fun p hp => by simp [h p hp]
      ins_tail := pairwise_of_forall_mem_list fun p hp q _ hnil => absurd hnil (h p hp).2.1
      outs_tail := pairwise_of_forall_mem_list fun p _ q hq _ => (h q hq).1 }
  -- the page at the front has the inputs of a plan, or none because there is no plan left
  have hhead : ∀ {plans : List PagePlan} {outs : List TxOutput} {h : outs.length ≤ TX_OUTPUTS},
      (∀ p ∈ plans, p.outs = [] ∧ p.ins ≠ [] ∧ p.owner ≠ 0) →
      (((plans.headD .blank).withOuts outs h).owner = 0 ↔ ((plans.headD .blank).withOuts outs h).ins = []) ∧
        (((plans.headD .blank).withOuts outs h).ins = [] → plans = []) := by
    intro plans outs h hplans
    cases plans with
    | nil => exact ⟨by simp [withOuts, blank, owned], fun _ => rfl⟩
    | cons p plans =>
      have hp := (hplans p (by simp)).2
      exact ⟨by simp [withOuts, hp], fun h => absurd h hp.1⟩
  have htail : ∀ {plans : List PagePlan}, (∀ p ∈ plans, p.outs = [] ∧ p.ins ≠ [] ∧ p.owner ≠ 0) →
      ∀ p ∈ plans.tail, p.outs = [] ∧ p.ins ≠ [] ∧ p.owner ≠ 0 := fun h p hp => h p (mem_of_mem_tail hp)
  fun_induction withOutputs plans outs with
  | case1 plans => exact hsame hplans
  | case2 plans a =>
    obtain ⟨h1, h2⟩ := hhead hplans
    refine (hsame (htail hplans)).cons (by simp [withOuts]) h1 ?_ fun _ q hq => (htail hplans q hq).1
    intro hnil q hq
    rw [h2 hnil] at hq
    cases hq
  | case3 plans a b rest ih =>
    obtain ⟨h1, h2⟩ := hhead hplans
    refine (ih (htail hplans)).cons (by simp [withOuts]) h1 ?_ ?_
    · intro hnil q hq
      rcases mem_withOutputs_ins q hq with h | ⟨p, hp, -⟩
      · exact h.2
      · rw [h2 hnil] at hp
        cases hp
    · intro hlt
      simp [withOuts, TX_OUTPUTS] at hlt

lemma inputPlans_owner (hp : p ∈ inputPlans inputs) :
    ∃ c ∈ inputs, c.root = p.owner := by
  obtain ⟨i, hi⟩ := exists_mem_of_ne_nil _ (inputPlans_ins inputs p hp)
  have hmem : (i, p.owner) ∈ (inputPlans inputs).flatMap reads :=
    mem_flatMap.mpr ⟨p, hp, mem_map.mpr ⟨i, hi, rfl⟩⟩
  rw [inputPlans_reads] at hmem
  obtain ⟨c, hc, heq⟩ := mem_map.mp hmem
  exact ⟨c, hc, (Prod.mk.inj heq).2⟩

lemma claimPlans_framed (hroots : ∀ c ∈ inputs, c.root ≠ 0) : Framed (claimPlans inputs outputs) := by
  refine framed_withOutputs fun p hp => ⟨inputPlans_bare _ p hp, inputPlans_ins _ p hp, ?_⟩
  obtain ⟨c, hc, hroot⟩ := inputPlans_owner hp
  exact hroot ▸ hroots c hc

lemma claimPlans_inSlots (inputs : List NativeInputClaim) (outputs : List NativeOutputClaim) :
    (claimPlans inputs outputs).flatMap inSlots = inputs.map (·.input.slotIndex) := by
  have hmap : (claimPlans inputs outputs).flatMap inSlots =
      ((claimPlans inputs outputs).flatMap reads).map fun r => r.1.slotIndex := by
    simp only [map_flatMap, reads, map_map]
    rfl
  rw [hmap, claimPlans, withOutputs_reads, inputPlans_reads, map_map]
  rfl

lemma claimPlans_outSlots (inputs : List NativeInputClaim) (outputs : List NativeOutputClaim) :
    (claimPlans inputs outputs).flatMap outSlots = outputs.map (·.output.slotIndex) := by
  have hmap : (claimPlans inputs outputs).flatMap outSlots =
      ((claimPlans inputs outputs).flatMap PagePlan.outs).map TxOutput.slotIndex := by
    rw [map_flatMap]
    rfl
  rw [hmap, claimPlans, withOutputs_outs (inputPlans_bare inputs), map_map]
  rfl

lemma scanPages_claims (anchor : Digest) (hroots : ∀ c ∈ inputs, c.root ≠ 0) (hslots : (claimSlots inputs outputs).Nodup) :
    ∃ tail tail', scanPages anchor ⟨[], [], false, false⟩ (bodies anchor (claimPlans inputs outputs)) =
      .ok ⟨inputs.map (·.input.slotIndex), outputs.map (·.output.slotIndex), tail, tail'⟩ := by
  have hins : ([] ++ (claimPlans inputs outputs).flatMap inSlots).Nodup := by
    rw [nil_append, claimPlans_inSlots]
    exact hslots.of_append_left
  have houts : ([] ++ (claimPlans inputs outputs).flatMap outSlots).Nodup := by
    rw [nil_append, claimPlans_outSlots]
    exact hslots.of_append_right
  obtain ⟨tail, tail', hscan⟩ := scanPages_ok (s := ⟨[], [], false, false⟩) (claimPlans_framed hroots)
    (fun h => by cases h) (fun h => by cases h) hins houts
  rw [claimPlans_inSlots, claimPlans_outSlots] at hscan
  exact ⟨tail, tail', hscan⟩

/-! ### The mask -/

lemma lane_ofLane (bits : ℕ) : lane (ofLane bits) = bits % 2 ^ 160 := by
  have h1 : (2 : ℕ) ^ 160 = 2 ^ 32 * (2 ^ 64 * 2 ^ 64) := by norm_num
  have h2 : bits / 2 ^ 32 / 2 ^ 64 = bits / 2 ^ 96 := by rw [Nat.div_div_eq_div_mul, ← pow_add]
  rw [h1, Nat.mod_mul, Nat.mod_mul, h2]
  simp only [lane, ofLane, Nat.mod_mod]

lemma decodeMask_encodeMask {mask : ℕ} (h : mask < (2 ^ 160) ^ TX_INPUTS) : decodeMask (encodeMask mask) = mask := by
  have hlanes : (encodeMask mask).toList.map lane =
      (range TX_INPUTS).map fun i => mask / (2 ^ 160) ^ i % 2 ^ 160 := by
    apply ext_getElem
    · simp
    · intro i h1 h2
      simp [encodeMask, lane_ofLane, Vector.getElem_toList]
  rw [decodeMask, hlanes, ofDigits_cut, Nat.mod_eq_of_lt h]

lemma testBit_claimMask (inputs : List NativeInputClaim) (outputs : List NativeOutputClaim) (i : ℕ) :
    (claimMask inputs outputs).testBit i = (((inputs.map (·.opening.isSome))[i]?).getD false ||
        (decide (INPUT_MASK_BITS ≤ i) && ((outputs.map (·.opening.isSome))[i - INPUT_MASK_BITS]?).getD false)) := by
  simp [claimMask, testBit_setBits]

lemma claimMask_lt (hin : inputs.length ≤ MAX_PAGED_SPEND_INPUTS) (hout : outputs.length ≤ MAX_PAGED_SPEND_OUTPUTS) :
    claimMask inputs outputs < (2 ^ 160) ^ TX_INPUTS := by
  rw [← pow_mul]
  refine Nat.lt_pow_two_of_testBit _ fun i hi => ?_
  have hwide : 160 * TX_INPUTS = INPUT_MASK_BITS + MAX_PAGED_SPEND_OUTPUTS := by decide
  have hmax : MAX_PAGED_SPEND_INPUTS ≤ INPUT_MASK_BITS := by decide
  rw [testBit_claimMask, getElem?_eq_none (by rw [length_map]; omega),
    getElem?_eq_none (by rw [length_map]; omega)]
  simp

lemma testBit_claimMask_input {i : ℕ} (hi : i < INPUT_MASK_BITS) :
    (claimMask inputs outputs).testBit i = ((inputs.map (·.opening.isSome))[i]?).getD false := by
  rw [testBit_claimMask, decide_eq_false (by omega)]
  simp

lemma testBit_claimMask_output (hin : inputs.length ≤ MAX_PAGED_SPEND_INPUTS) (i : ℕ) :
    (claimMask inputs outputs).testBit (INPUT_MASK_BITS + i) = ((outputs.map (·.opening.isSome))[i]?).getD false := by
  have hmax : MAX_PAGED_SPEND_INPUTS ≤ INPUT_MASK_BITS := by decide
  rw [testBit_claimMask, getElem?_eq_none (by rw [length_map]; omega)]
  simp

/-! ### The group of an operation -/

section
variable {hashPages : List TxBody → Digest} {context : NativeContext} {op : NativeOperation} {code : ℕ}
  {operand : TxOutput} {inputs : List NativeInputClaim} {outputs : List NativeOutputClaim}

def groupPages (context : NativeContext) (anchor : Digest) (code : ℕ) (operand : TxOutput)
    (inputs : List NativeInputClaim) (outputs : List NativeOutputClaim) : List TxBody :=
  headerPage context anchor (claimMask inputs outputs) code operand :: bodies anchor (claimPlans inputs outputs)

/-- What the framing check reads off the pages of an operation. -/
def groupFacts (hashPages : List TxBody → Digest) (context : NativeContext) (anchor : Digest)
    (op : NativeOperation) (code : ℕ) (operand : TxOutput) (inputs : List NativeInputClaim)
    (outputs : List NativeOutputClaim) : NativePageFacts where
  chain := context.chain
  authority := context.authority
  epochAnchor := anchor
  fee := context.fee
  operation := op
  logicalTxid := hashPages (groupPages context anchor code operand inputs outputs)
  liveInputs := inputs.length
  liveOutputs := outputs.length
  mask := claimMask inputs outputs

structure FitsPages (inputs : List NativeInputClaim) (outputs : List NativeOutputClaim) : Prop where
  nonempty : inputs ≠ []
  inputs_le : inputs.length ≤ MAX_PAGED_SPEND_INPUTS
  outputs_le : outputs.length ≤ MAX_PAGED_SPEND_OUTPUTS
  pages : (claimPlans inputs outputs).length < MAX_PAGED_SPEND_PAGES

/-- **The pages of an operation pass the framing check**, which reads off what they were built from. -/
theorem validateNativePages_group (hfits : FitsPages inputs outputs) (hroots : ∀ c ∈ inputs, c.root ≠ 0)
    (hslots : (claimSlots inputs outputs).Nodup) (hchain : context.chain ≠ 0) (hcode : code < 2 ^ 16)
    (hdecode : decodeOperation code operand = .ok op)
    (howner : op.requiresOwner = true ↔ context.authority ≠ 0)
    (hfunding : ∀ i ∈ op.fundingInput, i < inputs.length) :
    validateNativePages hashPages (groupPages context anchor code operand inputs outputs) =
      .ok (groupFacts hashPages context anchor op code operand inputs outputs) := by
  obtain ⟨hne, hin, hout, hpages⟩ := hfits
  obtain ⟨tail, tail', hscan⟩ := scanPages_claims anchor hroots hslots
  have hlen : 2 ≤ (groupPages context anchor code operand inputs outputs).length ∧
      (groupPages context anchor code operand inputs outputs).length ≤ MAX_PAGED_SPEND_PAGES := by
    have hpos := inputPlans_length_pos hne
    have hmax := length_withOutputs (inputPlans inputs) (outputs.map (·.output))
    rw [groupPages, length_cons, length_bodies]
    unfold claimPlans at hpages ⊢
    omega
  have hbounds : inputs.map (·.input.slotIndex) ≠ [] ∧
      (inputs.map (·.input.slotIndex)).length ≤ MAX_PAGED_SPEND_INPUTS ∧
      (outputs.map (·.output.slotIndex)).length ≤ MAX_PAGED_SPEND_OUTPUTS ∧
      ∀ slot ∈ inputs.map (·.input.slotIndex), slot ∉ outputs.map (·.output.slotIndex) := by
    refine ⟨by simpa using hne, by simpa using hin, by simpa using hout, ?_⟩
    intro slot h1 h2
    exact (nodup_append.mp hslots).2.2 slot h1 slot h2 rfl
  set header := headerPage context anchor (claimMask inputs outputs) code operand with hheader
  have hmask : decodeMask header.inputs = claimMask inputs outputs := decodeMask_encodeMask (claimMask_lt hin hout)
  have hstray : (∀ i < INPUT_MASK_BITS, (inputs.map (·.input.slotIndex)).length ≤ i →
      (decodeMask header.inputs).testBit i = false) ∧
      ∀ i < MAX_PAGED_SPEND_OUTPUTS, (outputs.map (·.output.slotIndex)).length ≤ i →
        (decodeMask header.inputs).testBit (INPUT_MASK_BITS + i) = false := by
    rw [hmask]
    refine ⟨fun i hi hle => ?_, fun i _ hle => ?_⟩
    · rw [testBit_claimMask_input hi, getElem?_eq_none (by simpa using hle)]
      rfl
    · rw [testBit_claimMask_output hin, getElem?_eq_none (by simpa using hle)]
      rfl
  have hshape : header.isCoinbase = false ∧ header.validityBitmap = HEADER_BITMAP ∧
      header.firstOutput.slotIndex = NATIVE_SPEND_VERSION ∧ header.firstOutput.owner ≠ 0 := ⟨rfl, rfl, rfl, hchain⟩
  have hcode' : header.firstOutput.amount < 2 ^ 16 := hcode
  have hdecode' : decodeOperation header.firstOutput.amount header.secondOutput = .ok op := hdecode
  have howner' : op.requiresOwner = true ↔ header.inputOwner ≠ 0 := howner
  have hscan' : scanPages header.epochAnchor ⟨[], [], false, false⟩
      (header :: bodies anchor (claimPlans inputs outputs)).tail = _ := hscan
  have hfunding' : ∀ i ∈ op.fundingInput, i < (inputs.map (·.input.slotIndex)).length := by
    simpa using hfunding
  have hgroup : groupPages context anchor code operand inputs outputs =
      header :: bodies anchor (claimPlans inputs outputs) := rfl
  have hfacts : groupFacts hashPages context anchor op code operand inputs outputs =
      { chain := header.firstOutput.owner, authority := header.inputOwner, epochAnchor := header.epochAnchor
        fee := header.fee, operation := op, logicalTxid := hashPages (header :: bodies anchor (claimPlans inputs outputs))
        liveInputs := inputs.length, liveOutputs := outputs.length, mask := claimMask inputs outputs } := rfl
  clear_value header
  rw [hgroup] at hlen
  rw [validateNativePages, hgroup, hfacts, require_bind hlen, head?_cons,
    bind_of_ok (show orElseThrow _ (some _) = .ok _ from rfl),
    require_bind hshape, require_bind hcode',
    bind_of_ok hdecode', require_bind howner', bind_of_ok hscan',
    require_bind hbounds, require_bind hfunding', require_bind hstray]
  simp only [hmask, length_map]
  rfl

end

end

end Noid.Tx
