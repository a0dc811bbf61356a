import Noid.Tx.IntegerProgram
import Noid.Tx.PagedSpend

/-! # Contract objects

A contract object is a coin whose owner is the root of an opening: a program with its state, the authorities and
recipients before and after a deadline, and the spending rules.  `checkCall` accepts a page that spends the object, either
continuing it in a successor with the state that the program computed, or closing it. -/

namespace Noid.Tx

open Noid.Lib List

/-! ### Addresses as fields -/

/-- The bytes of an address, in their order. -/
def addressBytes (a : Address) : List ℕ := ((range 32).map fun i => a / 256 ^ i % 256).reverse

lemma length_addressBytes (a : Address) : (addressBytes a).length = 32 := by simp [addressBytes]

lemma addressBytes_lt {a : Address} {n : ℕ} (h : n ∈ addressBytes a) : n < 256 := by
  simp only [addressBytes, mem_reverse, mem_map] at h
  obtain ⟨i, -, rfl⟩ := h
  exact Nat.mod_lt _ (by decide)

lemma addressBytes_injective {a b : Address} (ha : a < 2 ^ 256) (hb : b < 2 ^ 256)
    (h : addressBytes a = addressBytes b) : a = b := by
  have hcut := congrArg (Nat.ofDigits 256) (reverse_injective h)
  rw [ofDigits_cut, ofDigits_cut, Nat.mod_eq_of_lt (by simpa using ha), Nat.mod_eq_of_lt (by simpa using hb)] at hcut
  exact hcut

/-- The little-endian word that bytes spell. -/
def fromLeBytes (w : ℕ) (bytes : List ℕ) : BitVec w := .ofNat w (Nat.ofDigits 256 bytes)

lemma fromLeBytes_injective {w : ℕ} {l l' : List ℕ} (hlen : l.length = l'.length) (hw : 256 ^ l.length ≤ 2 ^ w)
    (hl : ∀ n ∈ l, n < 256) (hl' : ∀ n ∈ l', n < 256) (h : fromLeBytes w l = fromLeBytes w l') : l = l' := by
  have hlt : Nat.ofDigits 256 l < 2 ^ w := (Nat.ofDigits_lt_base_pow_length (by decide) hl).trans_le hw
  have hlt' : Nat.ofDigits 256 l' < 2 ^ w :=
    (Nat.ofDigits_lt_base_pow_length (by decide) hl').trans_le (hlen ▸ hw)
  have hnat := congrArg BitVec.toNat h
  rw [fromLeBytes, fromLeBytes, BitVec.toNat_ofNat, BitVec.toNat_ofNat, Nat.mod_eq_of_lt hlt,
    Nat.mod_eq_of_lt hlt'] at hnat
  exact Nat.ofDigits_inj_of_len_eq (by decide) hlen hl hl' hnat

/-- `as_fields`: the two halves of an address. -/
def addressFields (a : Address) : Block128 × Block128 :=
  (fromLeBytes 128 ((addressBytes a).take 16), fromLeBytes 128 ((addressBytes a).drop 16))

lemma addressFields_injective {a b : Address} (ha : a < 2 ^ 256) (hb : b < 2 ^ 256)
    (h : addressFields a = addressFields b) : a = b := by
  obtain ⟨h1, h2⟩ := Prod.ext_iff.mp h
  have htake := fromLeBytes_injective (by simp [length_addressBytes]) (by simp [length_addressBytes])
    (fun n hn => addressBytes_lt (mem_of_mem_take hn)) (fun n hn => addressBytes_lt (mem_of_mem_take hn)) h1
  have hdrop := fromLeBytes_injective (by simp [length_addressBytes]) (by simp [length_addressBytes])
    (fun n hn => addressBytes_lt (mem_of_mem_drop hn)) (fun n hn => addressBytes_lt (mem_of_mem_drop hn)) h2
  refine addressBytes_injective ha hb ?_
  rw [← take_append_drop 16 (addressBytes a), htake, hdrop, take_append_drop]

/-! ### Rules -/

/-- Why a call is refused. -/
inductive ObjectError where
  | opcode (step : ℕ)
  | shape | oldObject | successor | recipient | policy | feeLimit | reserveLimit | payoutLimit
  | program (e : ProgramError)
  | page (e : PagedSpendError)
deriving DecidableEq, Repr

/-- A claim may continue the object. -/
def CLAIM_CONTINUE : BitVec 8 := 1

/-- A claim may close the object. -/
def CLAIM_CLOSE : BitVec 8 := 2

/-- A call behind the deadline may continue the object. -/
def RECOVERY_CONTINUE : BitVec 8 := 4

/-- A call behind the deadline may close the object. -/
def RECOVERY_CLOSE : BitVec 8 := 8

/-- Payouts may go to anyone. -/
def ANY_PAYOUT_RECIPIENT : BitVec 8 := 16

/-- All modes. -/
def VALID_MODES : BitVec 8 := 31

/-- The limits of a call, and the modes that are allowed. -/
@[ext]
structure ObjectRules where
  maxFee : ℕ
  minRetained : ℕ
  maxPayout : ℕ
  modes : BitVec 8
deriving DecidableEq, Repr

namespace ObjectRules

/-- Unknown modes are refused. -/
def validate (r : ObjectRules) : Except ObjectError Unit := require (r.modes &&& ~~~VALID_MODES = 0) .policy

/-- The four fields of the rules, in pairs. -/
def fields (r : ObjectRules) : (Block128 × Block128) × (Block128 × Block128) :=
  ((.ofNat 128 r.maxFee, .ofNat 128 r.minRetained), (.ofNat 128 r.maxPayout, r.modes.setWidth 128))

/-- The mode of a call. -/
def modeBit : (beforeDeadline terminal : Bool) → BitVec 8
  | true, false => CLAIM_CONTINUE
  | true, true => CLAIM_CLOSE
  | false, false => RECOVERY_CONTINUE
  | false, true => RECOVERY_CLOSE

/-- The rules allow a call of this mode. -/
def permits (r : ObjectRules) (beforeDeadline terminal : Bool) : Bool :=
  decide (r.modes &&& modeBit beforeDeadline terminal ≠ 0)

end ObjectRules

/-! ### Openings -/

/-- What the owner of an object is the root of. -/
@[ext]
structure ObjectOpening where
  program : Program
  state : Block128
  claimAuthority : Address
  recoveryAuthority : Address
  deadline : ℕ
  claimRecipient : Address
  recoveryRecipient : Address
  rules : ObjectRules
deriving DecidableEq, Repr

/-- The domains of the contract hashes. -/
inductive ContractTag where
  | code | policy | object
deriving DecidableEq, Repr

/-- The sponge in the contract domains; digests have 32 bytes. -/
structure ObjectHash where
  absorb : ContractTag → List (Block128 × Block128) → Digest
  absorb_lt : ∀ tag l, absorb tag l < 2 ^ 256

/-- What an accepted call comes to. -/
structure CheckedTransition where
  next : Block128
  authority : Address
  terminal : Bool
deriving DecidableEq, Repr

def OBJECT_VERSION : ℕ := 3

/-- The page closes the object. -/
def TxBody.isTerminal (b : TxBody) : Bool := decide (b.validityBitmap &&& PAGED_SPEND_TERMINAL_BIT ≠ 0)

/-- The page has a second output. -/
def TxBody.hasPayout (b : TxBody) : Bool := decide (b.validityBitmap &&& outputBitmapBit 1 ≠ 0)

/-- The object that a call spends. -/
abbrev TxBody.objectInput (b : TxBody) : TxInput := b.inputs[0]

/-- What a call leaves in the object, or pays out when it closes it. -/
abbrev TxBody.retainedOutput (b : TxBody) : TxOutput := b.outputs[0]

/-- What a call pays out. -/
abbrev TxBody.payoutOutput (b : TxBody) : TxOutput := b.outputs[1]

/-- The values of a call. -/
def Context.fromBody (body : TxBody) (height deadline : ℕ) : Context where
  height := .ofNat 64 height
  fee := .ofNat 64 body.fee
  payout := .ofNat 64 body.outputs[1].amount
  retained := .ofNat 64 body.outputs[0].amount
  inputAmount := .ofNat 64 body.inputs[0].amount
  beforeDeadline := decide (height < deadline)
  terminal := body.isTerminal
  hasPayout := body.hasPayout
  payoutOwner := .ofFn fun word => fromLeBytes 64 (((addressBytes body.outputs[1].owner).drop (word * 8)).take 8)
  inputCreationId := .ofNat 64 body.inputs[0].creationId
  inputSlot := .ofNat 32 body.inputs[0].slotIndex
  retainedSlot := .ofNat 32 body.outputs[0].slotIndex
  payoutSlot := .ofNat 32 body.outputs[1].slotIndex

namespace ObjectOpening

variable (H : ObjectHash) (hashPages : List TxPage → Digest) (o : ObjectOpening)

/-- Every instruction decodes. -/
def validate : Except ObjectError Unit := do
  o.rules.validate
  o.program.toList.zipIdx.forM fun (fields, step) =>
    require (Instruction.fromFields fields).isSome (.opcode step)

/-- What the code id commits to. -/
def codeFields : List (Block128 × Block128) := o.program.toList

/-- The commitment to the program. -/
def codeId : Digest := H.absorb .code o.codeFields

/-- What the policy id commits to: all but the state. -/
def policyFields : List (Block128 × Block128) :=
  let claim := addressFields o.claimAuthority
  let recovery := addressFields o.recoveryAuthority
  let recipient := addressFields o.claimRecipient
  let refund := addressFields o.recoveryRecipient
  [addressFields (o.codeId H), (.ofNat 128 o.deadline, claim.1), (claim.2, recovery.1), (recovery.2, recipient.1),
    (recipient.2, refund.1), (refund.2, .ofNat 128 OBJECT_VERSION), o.rules.fields.1, o.rules.fields.2]

/-- The commitment to the policy. -/
def policyId : Digest := H.absorb .policy (o.policyFields H)

/-- What the root commits to: the policy and the state. -/
def objectFields : List (Block128 × Block128) := [addressFields (o.policyId H), (o.state, 0)]

/-- The owner of the object's coin. -/
def root : Address := H.absorb .object (o.objectFields H)

/-- Who may call at a height. -/
def authorityAt (height : ℕ) : Address := if height < o.deadline then o.claimAuthority else o.recoveryAuthority

/-- Who is paid at a height. -/
def recipientAt (height : ℕ) : Address := if height < o.deadline then o.claimRecipient else o.recoveryRecipient

/-- The object with its next state. -/
def successor (next : Block128) : ObjectOpening := { o with state := next }

/-- The next state, by the program. -/
def execute (body : TxBody) (height : ℕ) : Except ObjectError Block128 := do
  o.validate
  (Tx.execute o.program o.state (.fromBody body height o.deadline)).mapError .program

/-- The bits of every call. -/
def callBits : ℕ :=
  1 ||| outputBitmapBit 0 ||| PAGED_SPEND_START_BIT ||| PAGED_SPEND_END_BIT ||| PAGED_SPEND_CONTRACT_BIT

/-- Accept a page that spends the object. -/
def checkCall (page : TxPage) (height : ℕ) : Except ObjectError CheckedTransition := do
  o.validate
  let _ ← (validatePagedSpend hashPages [page]).mapError .page
  let body := page.body
  let terminal := body.isTerminal
  let expected := callBits |||
    if terminal then PAGED_SPEND_TERMINAL_BIT else body.validityBitmap &&& outputBitmapBit 1
  require (body.isCoinbase = false ∧ body.validityBitmap = expected) .shape
  require (body.inputOwner = o.root H) .oldObject
  require (o.rules.permits (decide (height < o.deadline)) terminal) .policy
  require (body.fee ≤ o.rules.maxFee) .feeLimit
  require (terminal ∨ o.rules.minRetained ≤ body.outputs[0].amount) .reserveLimit
  require (terminal ∨ body.outputs[1].amount ≤ o.rules.maxPayout) .payoutLimit
  require (terminal ∨ ¬(body.hasPayout ∧ o.rules.modes &&& ANY_PAYOUT_RECIPIENT = 0 ∧
    body.outputs[1].owner ≠ o.recipientAt height)) .recipient
  let next ← o.execute body height
  if terminal then require (body.outputs[0].owner = o.recipientAt height) .recipient
  else require (body.outputs[0].owner = (o.successor next).root H) .successor
  return { next := next, authority := o.authorityAt height, terminal := terminal }

/-! ### Roots -/

/-- The values that the types of the source hold. -/
structure InRange : Prop where
  claimAuthority : o.claimAuthority < 2 ^ 256
  recoveryAuthority : o.recoveryAuthority < 2 ^ 256
  claimRecipient : o.claimRecipient < 2 ^ 256
  recoveryRecipient : o.recoveryRecipient < 2 ^ 256
  deadline : o.deadline < U64
  maxFee : o.rules.maxFee < U64
  minRetained : o.rules.minRetained < U64
  maxPayout : o.rules.maxPayout < U64

variable {H o}

lemma InRange.successor (h : o.InRange) (next : Block128) : (o.successor next).InRange :=
  { h with }

lemma word_injective {a b : ℕ} (ha : a < U64) (hb : b < U64) (h : BitVec.ofNat 128 a = BitVec.ofNat 128 b) :
    a = b := by
  unfold U64 at ha hb
  have hnat := congrArg BitVec.toNat h
  rw [BitVec.toNat_ofNat, BitVec.toNat_ofNat, Nat.mod_eq_of_lt (by omega), Nat.mod_eq_of_lt (by omega)] at hnat
  exact hnat

end ObjectOpening

/-- No two openings of the set share a commitment. -/
structure CollisionFree (H : ObjectHash) (S : Set ObjectOpening) : Prop where
  code : Set.InjOn (H.absorb .code) (ObjectOpening.codeFields '' S)
  policy : Set.InjOn (H.absorb .policy) (ObjectOpening.policyFields H '' S)
  object : Set.InjOn (H.absorb .object) (ObjectOpening.objectFields H '' S)

namespace ObjectOpening

variable {H : ObjectHash} {S : Set ObjectOpening} {o o' : ObjectOpening}

lemma policyFields_injective (h : o.InRange) (h' : o'.InRange) (hfields : o.policyFields H = o'.policyFields H) :
    o.codeId H = o'.codeId H ∧ o' = { o with program := o'.program, state := o'.state } := by
  simp only [policyFields, ObjectRules.fields, cons.injEq, Prod.mk.injEq, and_true] at hfields
  obtain ⟨hcode, ⟨hdeadline, hc1⟩, ⟨hc2, hr1⟩, ⟨hr2, hp1⟩, ⟨hp2, hf1⟩, hf2, ⟨hfee, hretained⟩, hpayout, hmodes⟩ :=
    hfields
  refine ⟨addressFields_injective (H.absorb_lt _ _) (H.absorb_lt _ _) hcode, ?_⟩
  have hclaim := addressFields_injective h.claimAuthority h'.claimAuthority (Prod.ext hc1 hc2)
  have hrecovery := addressFields_injective h.recoveryAuthority h'.recoveryAuthority (Prod.ext hr1 hr2)
  have hrecipient := addressFields_injective h.claimRecipient h'.claimRecipient (Prod.ext hp1 hp2)
  have hrefund := addressFields_injective h.recoveryRecipient h'.recoveryRecipient (Prod.ext hf1 hf2)
  have hrules : o.rules = o'.rules := by
    have hmodes' : o.rules.modes = o'.rules.modes := by
      have := congrArg (BitVec.setWidth 8) hmodes
      rwa [BitVec.setWidth_setWidth_of_le _ (by decide), BitVec.setWidth_setWidth_of_le _ (by decide),
        BitVec.setWidth_eq, BitVec.setWidth_eq] at this
    exact ObjectRules.ext (word_injective h.maxFee h'.maxFee hfee)
      (word_injective h.minRetained h'.minRetained hretained) (word_injective h.maxPayout h'.maxPayout hpayout) hmodes'
  exact ObjectOpening.ext rfl rfl hclaim.symm hrecovery.symm (word_injective h.deadline h'.deadline hdeadline).symm
    hrecipient.symm hrefund.symm hrules.symm

/-- **Openings with one root are equal**, when their hashes do not collide. -/
theorem root_injective (hS : CollisionFree H S) (ho : o ∈ S) (ho' : o' ∈ S) (h : o.InRange) (h' : o'.InRange)
    (hroot : o.root H = o'.root H) : o = o' := by
  have hobject := hS.object ⟨o, ho, rfl⟩ ⟨o', ho', rfl⟩ hroot
  simp only [objectFields, cons.injEq, Prod.mk.injEq, and_true] at hobject
  obtain ⟨hpolicy, hstate⟩ := hobject
  have hpolicy := addressFields_injective (H.absorb_lt _ _) (H.absorb_lt _ _) hpolicy
  have hfields := hS.policy ⟨o, ho, rfl⟩ ⟨o', ho', rfl⟩ hpolicy
  obtain ⟨hcode, heq⟩ := policyFields_injective h h' hfields
  have hprogram : o.program = o'.program :=
    Vector.toList_inj.mp (hS.code ⟨o, ho, rfl⟩ ⟨o', ho', rfl⟩ hcode)
  rw [heq, ← hprogram, ← hstate]

/-! ### Accepted calls -/

lemma callBitmap_cases {body : TxBody} (h : body.validityBitmap = callBits |||
      if body.isTerminal then PAGED_SPEND_TERMINAL_BIT else body.validityBitmap &&& outputBitmapBit 1) :
    body.validityBitmap = callBits ||| PAGED_SPEND_TERMINAL_BIT ∨ body.validityBitmap = callBits ∨
      body.validityBitmap = callBits ||| outputBitmapBit 1 := by
  split_ifs at h with hterminal
  · exact .inl h
  · have hbit : body.validityBitmap &&& outputBitmapBit 1 = 0 ∨
        body.validityBitmap &&& outputBitmapBit 1 = outputBitmapBit 1 := by
      unfold outputBitmapBit
      rw [Nat.and_two_pow]
      cases Nat.testBit _ _ <;> simp
    rcases hbit with hbit | hbit <;> rw [hbit] at h
    · exact .inr (.inl (by simpa using h))
    · exact .inr (.inr h)

/-- What an accepted call satisfies. -/
structure CallOk (H : ObjectHash) (o : ObjectOpening) (page : TxPage) (height : ℕ) (t : CheckedTransition) : Prop where
  terminal : t.terminal = page.body.isTerminal
  bitmap : page.body.validityBitmap = callBits ||| PAGED_SPEND_TERMINAL_BIT ∨ page.body.validityBitmap = callBits ∨
    page.body.validityBitmap = callBits ||| outputBitmapBit 1
  spend : ∃ first, SpendOk [page] first
  owner : page.body.inputOwner = o.root H
  permitted : o.rules.permits (decide (height < o.deadline)) t.terminal
  fee : page.body.fee ≤ o.rules.maxFee
  retained : t.terminal = false → o.rules.minRetained ≤ page.body.outputs[0].amount
  payout : t.terminal = false → page.body.outputs[1].amount ≤ o.rules.maxPayout
  payee : t.terminal = false → page.body.outputIsLive 1 → o.rules.modes &&& ANY_PAYOUT_RECIPIENT = 0 →
    page.body.outputs[1].owner = o.recipientAt height
  next : o.execute page.body height = .ok t.next
  closing : t.terminal = true → page.body.outputs[0].owner = o.recipientAt height
  continuing : t.terminal = false → page.body.outputs[0].owner = (o.successor t.next).root H
  authority : t.authority = o.authorityAt height

lemma outputIsLive_one {body : TxBody} : body.outputIsLive 1 = body.hasPayout := by
  unfold TxBody.outputIsLive TxBody.hasPayout outputBitmapBit
  rw [Nat.and_two_pow]
  cases Nat.testBit _ _ <;> simp [TX_OUTPUTS, TX_INPUTS]

lemma checkCall_eq_ok {hashPages : List TxPage → Digest} {page : TxPage} {height : ℕ} {t : CheckedTransition}
    (h : o.checkCall H hashPages page height = .ok t) : CallOk H o page height t := by
  simp only [checkCall, ok_rules] at h
  obtain ⟨⟨⟩, hvalid, facts, hspend, ⟨-, hbitmap⟩, howner, hpermits, hfee, hretained, hpayout, hpayee, next, hnext, h⟩ := h
  have hfinal : (page.body.isTerminal = true → page.body.outputs[0].owner = o.recipientAt height) ∧
      (page.body.isTerminal = false → page.body.outputs[0].owner = (o.successor next).root H) ∧
        t = { next := next, authority := o.authorityAt height, terminal := page.body.isTerminal } := by
    cases hterminal : page.body.isTerminal with
    | true =>
      rw [hterminal, if_pos rfl] at h
      simp only [ok_rules] at h
      exact ⟨fun _ => h.1, fun hf => (by cases hf), h.2.symm⟩
    | false =>
      rw [hterminal, if_neg Bool.false_ne_true] at h
      simp only [ok_rules] at h
      exact ⟨fun hf => (by cases hf), fun _ => h.1, h.2.symm⟩
  obtain ⟨hclosing, hcontinuing, rfl⟩ := hfinal
  have hrule : ∀ {p : Prop}, (page.body.isTerminal = true ∨ p) → page.body.isTerminal = false → p := by
    intro p hp hf
    exact hp.resolve_left (by simp [hf])
  refine ⟨rfl, callBitmap_cases hbitmap, validatePagedSpend_eq_ok hspend, howner, hpermits, hfee, hrule hretained,
    hrule hpayout, ?_, hnext, hclosing, hcontinuing, rfl⟩
  intro hf hlive hmode
  by_contra hne
  exact hrule hpayee hf ⟨outputIsLive_one ▸ hlive, hmode, hne⟩

lemma toList_inputs (b : TxBody) : b.inputs.toList = [b.inputs[0], b.inputs[1], b.inputs[2], b.inputs[3],
    b.inputs[4], b.inputs[5], b.inputs[6], b.inputs[7]] := by
  rcases b.inputs with ⟨⟨l⟩, h⟩
  match l, h with
  | [_, _, _, _, _, _, _, _], _ => rfl

lemma toList_outputs (b : TxBody) : b.outputs.toList = [b.outputs[0], b.outputs[1]] := by
  rcases b.outputs with ⟨⟨l⟩, h⟩
  match l, h with
  | [_, _], _ => rfl

namespace CallOk

variable {page : TxPage} {height : ℕ} {t : CheckedTransition}

section
variable (h : CallOk H o page height t)
include h

lemma liveInputs : page.body.liveInputs = [page.body.inputs[0]] := by
  have hlive : ∀ i < 8, page.body.inputIsLive i = decide (i = 0) := by
    unfold TxBody.inputIsLive
    rcases h.bitmap with hb | hb | hb <;> rw [hb] <;> decide
  unfold TxBody.liveInputs
  rw [toList_inputs]
  simp [hlive]

lemma shape : validatePageShape page.body 0 = .ok () := by
  obtain ⟨first, hspend⟩ := h.spend
  exact hspend.shape (page, 0) (by simp)

lemma dead_closing (ht : t.terminal = true) :
    page.body.outputIsLive 1 = false := by
  have hterminal := h.terminal
  rw [ht] at hterminal
  unfold TxBody.isTerminal at hterminal
  unfold TxBody.outputIsLive
  rcases h.bitmap with hb | hb | hb <;> rw [hb] at hterminal ⊢ <;> revert hterminal <;> decide

lemma outputs_closing (ht : t.terminal = true) :
    page.body.outputs[1] = .dummy :=
  ((validatePageShape_eq_ok.mp h.shape).2.2.2 1 (by decide)).resolve_left (by simp [h.dead_closing ht])

/-- **An accepted page is balanced**: what the object held is retained, paid out or spent on the fee. -/
theorem balance :
    page.body.inputs[0].amount = page.body.outputs[0].amount + page.body.outputs[1].amount + page.body.fee := by
  obtain ⟨first, hspend⟩ := h.spend
  have hbalance := hspend.balance_single
  have hzero : page.body.outputIsLive 0 = true := by
    unfold TxBody.outputIsLive
    rcases h.bitmap with hb | hb | hb <;> rw [hb] <;> decide
  have hout : outputSum page.body.liveOutputs = page.body.outputs[0].amount + page.body.outputs[1].amount := by
    unfold TxBody.liveOutputs
    rw [toList_outputs]
    rcases (validatePageShape_eq_ok.mp h.shape).2.2.2 1 (by decide) with hone | hdummy
    · simp [hzero, hone, outputSum]
    · cases hone : page.body.outputIsLive 1 with
      | true => simp [hzero, hone, outputSum]
      | false => simp [hzero, hone, outputSum, hdummy, TxOutput.dummy]
  rw [h.liveInputs, hout] at hbalance
  simpa [inputSum] using hbalance

end

end CallOk

end ObjectOpening

end Noid.Tx
