import Noid.Tx.Object

/-! # Chains of calls

A chain is a list of accepted calls, each spending the output that the call before it retained.  With collision-free
hashes it keeps the policy of its first opening, and the states are the results of the program, one after the other. -/

namespace Noid.Tx

open Noid.Lib List

/-- An accepted call. -/
structure ObjectStep where
  opening : ObjectOpening
  page : TxPage
  height : ℕ
  outcome : CheckedTransition
deriving DecidableEq, Repr

/-- The output that carries the object on; a closing page has none. -/
def TxBody.retained (b : TxBody) : Option TxOutput := if b.isTerminal then none else some b.retainedOutput

def TxInput.Spends (input : TxInput) (output : TxOutput) : Prop :=
  input.slotIndex = output.slotIndex ∧ input.amount = output.amount

/-- A call on the object that another one retained. -/
def ObjectStep.Follows (H : ObjectHash) (s s' : ObjectStep) : Prop :=
  ∃ output, s.page.body.retained = some output ∧ s'.opening.root H = output.owner ∧
    s'.page.body.objectInput.Spends output

structure ObjectChain (H : ObjectHash) (hashPages : List TxPage → Digest) (steps : List ObjectStep) : Prop where
  accepted : ∀ s ∈ steps, s.opening.checkCall H hashPages s.page s.height = .ok s.outcome
  linked : steps.IsChain (ObjectStep.Follows H)

/-- A set of openings on which the hashes do not collide, whatever states the program reaches. -/
structure HashDomain (H : ObjectHash) (S : Set ObjectOpening) : Prop where
  collisionFree : CollisionFree H S
  inRange : ∀ o ∈ S, o.InRange
  successor : ∀ o ∈ S, ∀ next, o.successor next ∈ S

namespace ObjectChain

variable {H : ObjectHash} {hashPages : List TxPage → Digest} {S : Set ObjectOpening} {steps : List ObjectStep}

lemma ok (h : ObjectChain H hashPages steps) {s : ObjectStep} (hs : s ∈ steps) :
    ObjectOpening.CallOk H s.opening s.page s.height s.outcome := ObjectOpening.checkCall_eq_ok (h.accepted s hs)

lemma follows (h : ObjectChain H hashPages steps) {i : ℕ} (hi : i + 1 < steps.length) :
    steps[i].Follows H steps[i + 1] := isChain_iff_getElem.mp h.linked i hi

/-- Only a continuing call is followed by another. -/
theorem terminal_eq_false (h : ObjectChain H hashPages steps) {i : ℕ} (hi : i + 1 < steps.length) :
    steps[i].page.body.isTerminal = false := by
  obtain ⟨output, hretained, -⟩ := h.follows hi
  unfold TxBody.retained at hretained
  split_ifs at hretained with hterminal
  simpa using hterminal

lemma spends (h : ObjectChain H hashPages steps) {i : ℕ} (hi : i + 1 < steps.length) :
    steps[i + 1].opening.root H = steps[i].page.body.outputs[0].owner ∧
      steps[i + 1].page.body.inputs[0].amount = steps[i].page.body.outputs[0].amount := by
  obtain ⟨output, hretained, hroot, -, hamount⟩ := h.follows hi
  have hcontinuing := h.terminal_eq_false hi
  rw [TxBody.retained, hcontinuing, if_neg Bool.false_ne_true] at hretained
  cases hretained
  exact ⟨hroot, hamount⟩

section
variable (hS : HashDomain H S) (h : ObjectChain H hashPages steps) (hmem : ∀ s ∈ steps, s.opening ∈ S)
include hS h hmem

lemma opening_succ {i : ℕ} (hi : i + 1 < steps.length) :
    steps[i + 1].opening = steps[i].opening.successor steps[i].outcome.next := by
  have hmem0 := hmem steps[i] (getElem_mem _)
  have hmem1 := hmem steps[i + 1] (getElem_mem _)
  have hok := h.ok (s := steps[i]) (getElem_mem _)
  have howner := hok.continuing (hok.terminal.trans (h.terminal_eq_false hi))
  refine ObjectOpening.root_injective hS.collisionFree hmem1 (hS.successor _ hmem0 _) (hS.inRange _ hmem1)
    ((hS.inRange _ hmem0).successor _) ?_
  rw [(h.spends hi).1, howner]

variable (hne : 0 < steps.length)

/-- The policy of the first opening is inherited. -/
theorem opening_eq {i : ℕ} (hi : i < steps.length) :
    steps[i].opening = steps[0].opening.successor steps[i].opening.state := by
  induction i with
  | zero => rfl
  | succ i ih =>
    rw [h.opening_succ hS hmem hi, ih (by omega)]
    rfl

lemma rules_eq {i : ℕ} (hi : i < steps.length) : steps[i].opening.rules = steps[0].opening.rules := by
  rw [h.opening_eq hS hmem hne hi]
  rfl

/-- A continuing call retains what it does not pay out or spend on its fee. -/
theorem retained_step {i : ℕ} (hi : i < steps.length) (hcontinuing : steps[i].page.body.isTerminal = false) :
    steps[i].page.body.inputs[0].amount ≤ steps[i].page.body.outputs[0].amount +
      (steps[0].opening.rules.maxPayout + steps[0].opening.rules.maxFee) := by
  have hok := h.ok (getElem_mem hi)
  have hbalance := hok.balance
  have hpayout := hok.payout (hok.terminal.trans hcontinuing)
  have hfee := hok.fee
  rw [h.rules_eq hS hmem hne hi] at hpayout hfee
  omega

/-- What is retained after a number of continuing calls. -/
theorem retained_ge {i : ℕ} (hi : i < steps.length) (hcontinuing : steps[i].page.body.isTerminal = false) :
    steps[0].page.body.inputs[0].amount ≤ steps[i].page.body.outputs[0].amount +
      (i + 1) * (steps[0].opening.rules.maxPayout + steps[0].opening.rules.maxFee) := by
  induction i with
  | zero => simpa using h.retained_step hS hmem hne hi hcontinuing
  | succ i ih =>
    have hbefore := ih (by omega) (h.terminal_eq_false hi)
    have hstep := h.retained_step hS hmem hne hi hcontinuing
    rw [(h.spends hi).2] at hstep
    rw [Nat.succ_mul]
    omega

end

/-- **A chain keeps the contract of its first opening**: its policy, its program and its rules; a closing page pays
the rest to the recipient of its phase and is the last. -/
theorem chain_contract (hS : HashDomain H S) (h : ObjectChain H hashPages steps) (hmem : ∀ s ∈ steps, s.opening ∈ S)
    (hne : 0 < steps.length) :
    let o := steps[0].opening
    (∀ s ∈ steps, s.opening = o.successor s.opening.state) ∧
    (∀ (i : ℕ) (hi : i + 1 < steps.length),
      steps[i].opening.execute steps[i].page.body steps[i].height = .ok steps[i + 1].opening.state) ∧
    (∀ s ∈ steps, s.page.body.isTerminal = false →
      o.rules.minRetained ≤ s.page.body.outputs[0].amount ∧ s.page.body.outputs[1].amount ≤ o.rules.maxPayout ∧
        s.page.body.fee ≤ o.rules.maxFee) ∧
    (∀ s ∈ steps, s.page.body.outputIsLive 1 → o.rules.modes &&& ANY_PAYOUT_RECIPIENT = 0 →
      s.page.body.outputs[1].owner = o.recipientAt s.height) ∧
    (∀ (i : ℕ) (hi : i < steps.length), steps[i].page.body.isTerminal = true →
      steps[i].page.body.outputs[0].owner = o.recipientAt steps[i].height ∧
        steps[i].page.body.outputs[0].amount + steps[i].page.body.fee = steps[i].page.body.inputs[0].amount ∧
        steps[i].page.body.outputs[1] = .dummy ∧ i + 1 = steps.length) ∧
    (∀ s ∈ steps, o.rules.permits (decide (s.height < o.deadline)) s.page.body.isTerminal) ∧
    ∀ (i : ℕ) (hi : i < steps.length), steps[i].page.body.isTerminal = false → steps[0].page.body.inputs[0].amount ≤
        steps[i].page.body.outputs[0].amount + (i + 1) * (o.rules.maxPayout + o.rules.maxFee) := by
  intro o
  have hopening : ∀ s ∈ steps, s.opening = o.successor s.opening.state := by
    intro s hs
    obtain ⟨i, hi, rfl⟩ := getElem_of_mem hs
    exact h.opening_eq hS hmem hne hi
  have hrules : ∀ s ∈ steps, s.opening.rules = o.rules := fun s hs => by rw [hopening s hs]; rfl
  have hdeadline : ∀ s ∈ steps, s.opening.deadline = o.deadline := fun s hs => by rw [hopening s hs]; rfl
  have hrecipient : ∀ s ∈ steps, ∀ height, s.opening.recipientAt height = o.recipientAt height := fun s hs height => by
    rw [hopening s hs]
    rfl
  refine ⟨hopening, ?_, ?_, ?_, ?_, ?_, fun i hi => h.retained_ge hS hmem hne hi⟩
  · intro i hi
    have hok := h.ok (s := steps[i]) (getElem_mem _)
    rw [hok.next, h.opening_succ hS hmem hi]
    rfl
  · intro s hs hcontinuing
    have hok := h.ok hs
    have hterminal := hok.terminal.trans hcontinuing
    rw [← hrules s hs]
    exact ⟨hok.retained hterminal, hok.payout hterminal, hok.fee⟩
  · intro s hs hlive hmode
    have hok := h.ok hs
    rw [← hrules s hs] at hmode
    rw [← hrecipient s hs]
    cases hterminal : s.outcome.terminal with
    | false => exact hok.payee hterminal hlive hmode
    | true =>
      rw [hok.dead_closing hterminal] at hlive
      cases hlive
  · intro i hi hclosing
    have hok := h.ok (getElem_mem hi)
    have hterminal := hok.terminal.trans hclosing
    have hdummy := hok.outputs_closing hterminal
    have hbalance := hok.balance
    rw [hdummy] at hbalance
    refine ⟨?_, hbalance.symm, hdummy, ?_⟩
    · rw [hok.closing hterminal, hrecipient _ (getElem_mem hi)]
    · by_contra hlast
      rw [h.terminal_eq_false (by omega)] at hclosing
      cases hclosing
  · intro s hs
    have hok := h.ok hs
    rw [← hrules s hs, ← hdeadline s hs, ← hok.terminal]
    exact hok.permitted

end ObjectChain

/-! ### Runs -/

/-- The opening that a list of calls on an object leaves. -/
def currentOpening (o : ObjectOpening) (steps : List ObjectStep) : ObjectOpening :=
  match steps.getLast? with
  | none => o
  | some s => s.opening.successor s.outcome.next

/-- The amount that a list of calls on an object leaves in it. -/
def heldAmount (amount : ℕ) (steps : List ObjectStep) : ℕ :=
  match steps.getLast? with
  | none => amount
  | some s => s.page.body.retainedOutput.amount

/-- Accepted calls on an object, one on the successor of the other, at heights that never fall. -/
inductive ObjectRun (H : ObjectHash) (hashPages : List TxPage → Digest) (o : ObjectOpening) (amount : ℕ) :
    List ObjectStep → Prop where
  | nil : ObjectRun H hashPages o amount []
  | snoc {steps : List ObjectStep} {s : ObjectStep} (run : ObjectRun H hashPages o amount steps)
      (isOpen : ∀ s' ∈ steps, s'.page.body.isTerminal = false) (order : ∀ s' ∈ steps, s'.height ≤ s.height)
      (opening : s.opening = currentOpening o steps)
      (spends : s.page.body.inputs[0].amount = heldAmount amount steps)
      (accepted : s.opening.checkCall H hashPages s.page s.height = .ok s.outcome) :
      ObjectRun H hashPages o amount (steps ++ [s])

namespace ObjectRun

variable {H : ObjectHash} {hashPages : List TxPage → Digest} {o : ObjectOpening} {amount : ℕ} {steps : List ObjectStep}

lemma ok (h : ObjectRun H hashPages o amount steps) {s : ObjectStep} (hs : s ∈ steps) :
    ObjectOpening.CallOk H s.opening s.page s.height s.outcome := by
  induction h with
  | nil => cases hs
  | snoc _ _ _ _ _ accepted ih =>
    rcases mem_append.mp hs with hs | hs
    · exact ih hs
    · obtain rfl := mem_singleton.mp hs
      exact ObjectOpening.checkCall_eq_ok accepted

lemma currentOpening_append (o : ObjectOpening) (steps : List ObjectStep) (s : ObjectStep) :
    currentOpening o (steps ++ [s]) = s.opening.successor s.outcome.next := by simp [currentOpening]

lemma heldAmount_append (amount : ℕ) (steps : List ObjectStep) (s : ObjectStep) :
    heldAmount amount (steps ++ [s]) = s.page.body.outputs[0].amount := by simp [heldAmount]

lemma currentOpening_eq (h : ObjectRun H hashPages o amount steps) :
    currentOpening o steps = o.successor (currentOpening o steps).state := by
  induction h with
  | nil => rfl
  | snoc _ _ _ opening _ _ ih =>
    rw [currentOpening_append, opening, ih]
    rfl

lemma opening_eq (h : ObjectRun H hashPages o amount steps) {s : ObjectStep} (hs : s ∈ steps) :
    s.opening = o.successor s.opening.state := by
  induction h with
  | nil => cases hs
  | snoc run _ _ opening _ _ ih =>
    rcases mem_append.mp hs with hs | hs
    · exact ih hs
    · obtain rfl := mem_singleton.mp hs
      rw [opening, run.currentOpening_eq]
      rfl

/-- What an object holds never grows. -/
theorem heldAmount_le (h : ObjectRun H hashPages o amount steps) : heldAmount amount steps ≤ amount := by
  induction h with
  | nil => exact le_rfl
  | snoc _ _ _ _ spends accepted ih =>
    have hbalance := (ObjectOpening.checkCall_eq_ok accepted).balance
    rw [heldAmount_append]
    omega

end ObjectRun

namespace ObjectChain

variable {H : ObjectHash} {hashPages : List TxPage → Digest} {S : Set ObjectOpening} {steps : List ObjectStep}

/-! ### An object -/

/-- A hash for the objects of one policy: the state itself. -/
def stateHash : ObjectHash where
  absorb tag l := match tag, l with
    | .object, [_, (state, _)] => state.toNat
    | _, _ => 0
  absorb_lt tag l := by
    split
    · exact (BitVec.isLt _).trans (by decide)
    · decide

def keptObject : ObjectOpening where
  program := EMPTY_PROGRAM
  state := 9
  claimAuthority := 1
  recoveryAuthority := 2
  deadline := 100
  claimRecipient := 3
  recoveryRecipient := 4
  rules := { maxFee := 5, minRetained := 10, maxPayout := 50, modes := 31 }

def objectCall (owner : Address) (slot input fee : ℕ) (retained payout : TxOutput) (bits : ℕ) : TxPage where
  body :=
    { epochAnchor := 0, fee := fee, inputOwner := owner
      inputs := #v[⟨slot, input, 6⟩, .dummy, .dummy, .dummy, .dummy, .dummy, .dummy, .dummy]
      outputs := #v[retained, payout]
      validityBitmap := ObjectOpening.callBits ||| bits, isCoinbase := false }

/-- A payment before the deadline and the close after it. -/
def keptSteps : List ObjectStep :=
  [{ opening := keptObject
     page := objectCall (keptObject.root stateHash) 1 100 1 ⟨2, 79, keptObject.root stateHash⟩ ⟨3, 20, 3⟩ (outputBitmapBit 1)
     height := 7, outcome := { next := 9, authority := 1, terminal := false } },
   { opening := keptObject
     page := objectCall (keptObject.root stateHash) 2 79 2 ⟨4, 77, 4⟩ .dummy PAGED_SPEND_TERMINAL_BIT
     height := 200, outcome := { next := 9, authority := 2, terminal := true } }]

lemma keptObject_domain : HashDomain stateHash (Set.range keptObject.successor) := by
  refine ⟨⟨?_, ?_, ?_⟩, ?_, ?_⟩
  · rintro _ ⟨_, ⟨s, rfl⟩, rfl⟩ _ ⟨_, ⟨s', rfl⟩, rfl⟩ -
    rfl
  · rintro _ ⟨_, ⟨s, rfl⟩, rfl⟩ _ ⟨_, ⟨s', rfl⟩, rfl⟩ -
    rfl
  · rintro _ ⟨_, ⟨s, rfl⟩, rfl⟩ _ ⟨_, ⟨s', rfl⟩, rfl⟩ h
    obtain rfl : s = s' := BitVec.eq_of_toNat_eq h
    rfl
  · rintro _ ⟨s, rfl⟩
    exact (ObjectOpening.InRange.mk (o := keptObject) (by decide) (by decide) (by decide) (by decide) (by decide)
      (by decide) (by decide) (by decide)).successor s
  · rintro _ ⟨s, rfl⟩ next
    exact ⟨next, rfl⟩

lemma keptSteps_chain : ObjectChain stateHash (fun _ => 0) keptSteps where
  accepted := by decide +kernel
  linked := .cons_cons ⟨_, rfl, by decide +kernel, rfl, rfl⟩ (.singleton _)

lemma keptSteps_mem : ∀ s ∈ keptSteps, s.opening ∈ Set.range keptObject.successor := by
  intro s hs
  rcases mem_pair.mp hs with rfl | rfl
  · exact ⟨9, rfl⟩
  · exact ⟨9, rfl⟩

theorem keptSteps_contract : (∀ s ∈ keptSteps, s.opening = keptObject.successor s.opening.state) ∧
    keptObject.execute keptSteps[0].page.body 7 = .ok 9 ∧
    (10 ≤ keptSteps[0].page.body.outputs[0].amount ∧ keptSteps[0].page.body.outputs[1].amount ≤ 50 ∧
      keptSteps[0].page.body.fee ≤ 5) ∧
    (keptSteps[1].page.body.outputs[0].owner = 4 ∧ keptSteps[1].page.body.outputs[0].amount + 2 = 79) ∧
    (∀ s ∈ keptSteps, keptObject.rules.permits (decide (s.height < 100)) s.page.body.isTerminal) ∧
    keptSteps[0].page.body.inputs[0].amount ≤ keptSteps[0].page.body.outputs[0].amount + (0 + 1) * (50 + 5) := by
  obtain ⟨hopenings, hstates, hlimits, -, hclose, hpermits, hamount⟩ :=
    chain_contract keptObject_domain keptSteps_chain keptSteps_mem (by decide)
  obtain ⟨howner, hpaid, -⟩ := hclose 1 (by decide) rfl
  exact ⟨hopenings, hstates 0 (by decide), hlimits _ (getElem_mem (by decide)) rfl, ⟨howner, hpaid⟩, hpermits,
    hamount 0 (by decide) rfl⟩

end ObjectChain

end Noid.Tx
