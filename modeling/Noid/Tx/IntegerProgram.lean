import Noid.Lib.Bits
import Noid.Lib.Checked
import Mathlib.Data.BitVec

/-! # Integer programs

A program has sixteen instructions over four `u64` registers: two hold the state of the object, two are scratch and start
at zero.  Every instruction is guarded by a predicate; there are no jumps.  `execute` fails with the step at which an
addition, a subtraction, an assertion or a guard failed. -/

namespace Noid.Tx

open Noid.Lib Function
open List hiding Vector

/-- A `u64` of the machine. -/
abbrev Word64 := BitVec 64

/-- A field element, as its 128 bits. -/
abbrev Block128 := BitVec 128

namespace Word64

def checkedAdd (a b : Word64) : Option Word64 := if a.toNat + b.toNat < U64 then some (a + b) else none

def checkedSub (a b : Word64) : Option Word64 := if b ≤ a then some (a - b) else none

def ofBool (b : Bool) : Word64 := if b then 1 else 0

end Word64

/-! ### Instructions -/

def PROGRAM_STEPS : ℕ := 16

def INSTRUCTION_BITS : ℕ := 20

/-- Where a step writes. -/
inductive Register where
  | state0 | state1 | scratch0 | scratch1
deriving DecidableEq, Repr

/-- What a step reads; the immediate is its own. -/
inductive Operand where
  | state0 | state1 | scratch0 | scratch1
  | immediate
  | height | fee | payout | retained | inputAmount
  | beforeDeadline | terminal | hasPayout
  | zero | one
  | afterDeadline
  | payoutOwner0 | payoutOwner1 | payoutOwner2 | payoutOwner3
  | inputCreationId | inputSlot | retainedSlot | payoutSlot
deriving DecidableEq, Repr

/-- What a step does. -/
inductive Opcode where
  | keep | move | add | subtract | min | max | lessThan | equal | assertEqual | assertLessOrEqual
deriving DecidableEq, Repr

/-- When a step acts. -/
inductive PredicateSource where
  | always | beforeDeadline | terminal | hasPayout | scratch0 | scratch1
deriving DecidableEq, Repr

/-- The operands in the order of their numbers. -/
def Operand.ALL : List Operand :=
  [.state0, .state1, .scratch0, .scratch1, .immediate, .height, .fee, .payout, .retained, .inputAmount,
    .beforeDeadline, .terminal, .hasPayout, .zero, .one, .afterDeadline, .payoutOwner0, .payoutOwner1,
    .payoutOwner2, .payoutOwner3, .inputCreationId, .inputSlot, .retainedSlot, .payoutSlot]

def Opcode.ALL : List Opcode :=
  [.keep, .move, .add, .subtract, .min, .max, .lessThan, .equal, .assertEqual, .assertLessOrEqual]

def PredicateSource.ALL : List PredicateSource :=
  [.always, .beforeDeadline, .terminal, .hasPayout, .scratch0, .scratch1]

/-- The register with a two-bit number. -/
def Register.decode : ℕ → Register
  | 0 => .state0
  | 1 => .state1
  | 2 => .scratch0
  | _ => .scratch1

structure Predicate where
  source : PredicateSource
  inverted : Bool
deriving DecidableEq, Repr

namespace Predicate

def ALWAYS : Predicate := { source := .always, inverted := false }

def BEFORE_DEADLINE : Predicate := { source := .beforeDeadline, inverted := false }

def not (p : Predicate) : Predicate := { p with inverted := !p.inverted }

end Predicate

structure Instruction where
  opcode : Opcode
  destination : Register
  left : Operand
  right : Operand
  predicate : Predicate
  immediate : Word64
deriving DecidableEq, Repr

namespace Instruction

/-- The descriptor: twenty bits, the number of a constructor being its place in the source's list. -/
def descriptor (i : Instruction) : ℕ :=
  i.opcode.ctorIdx ||| i.destination.ctorIdx <<< 4 ||| i.left.ctorIdx <<< 6 ||| i.right.ctorIdx <<< 11 |||
    i.predicate.source.ctorIdx <<< 16 ||| i.predicate.inverted.toNat <<< 19

/-- The two field elements of an instruction. -/
def toFields (i : Instruction) : Block128 × Block128 :=
  (BitVec.ofNat 128 i.descriptor, i.immediate.setWidth 128)

/-- Decode an instruction. -/
def fromFields (fields : Block128 × Block128) : Option Instruction := do
  let word := fields.1.toNat
  guard (word >>> INSTRUCTION_BITS = 0 ∧ fields.2.toNat ≤ U64_MAX)
  let opcode ← Opcode.ALL[word &&& 15]?
  let left ← Operand.ALL[word >>> 6 &&& 31]?
  let right ← Operand.ALL[word >>> 11 &&& 31]?
  let source ← PredicateSource.ALL[word >>> 16 &&& 7]?
  return {
    opcode := opcode
    destination := .decode (word >>> 4 &&& 3)
    left := left
    right := right
    predicate := { source := source, inverted := word &&& 1 <<< 19 ≠ 0 }
    immediate := fields.2.setWidth 64 }

end Instruction

abbrev Program := Vector (Block128 × Block128) PROGRAM_STEPS

def EMPTY_PROGRAM : Program := .replicate PROGRAM_STEPS (0, 0)

/-! ### Execution -/

/-- The values of a call. -/
structure Context where
  height : Word64
  fee : Word64
  payout : Word64
  retained : Word64
  inputAmount : Word64
  beforeDeadline : Bool
  terminal : Bool
  hasPayout : Bool
  payoutOwner : Vector Word64 4
  inputCreationId : Word64
  inputSlot : BitVec 32
  retainedSlot : BitVec 32
  payoutSlot : BitVec 32
deriving DecidableEq, Repr

abbrev Registers := Register → Word64

namespace Context

variable (c : Context)

abbrev payoutOwner0 : Word64 := c.payoutOwner.get 0

abbrev payoutOwner1 : Word64 := c.payoutOwner.get 1

abbrev payoutOwner2 : Word64 := c.payoutOwner.get 2

abbrev payoutOwner3 : Word64 := c.payoutOwner.get 3

/-- The value of an operand. -/
def operand (registers : Registers) (immediate : Word64) : Operand → Word64
  | .state0 => registers .state0
  | .state1 => registers .state1
  | .scratch0 => registers .scratch0
  | .scratch1 => registers .scratch1
  | .immediate => immediate
  | .height => c.height
  | .fee => c.fee
  | .payout => c.payout
  | .retained => c.retained
  | .inputAmount => c.inputAmount
  | .beforeDeadline => .ofBool c.beforeDeadline
  | .terminal => .ofBool c.terminal
  | .hasPayout => .ofBool c.hasPayout
  | .zero => 0
  | .one => 1
  | .afterDeadline => .ofBool !c.beforeDeadline
  | .payoutOwner0 => c.payoutOwner0
  | .payoutOwner1 => c.payoutOwner1
  | .payoutOwner2 => c.payoutOwner2
  | .payoutOwner3 => c.payoutOwner3
  | .inputCreationId => c.inputCreationId
  | .inputSlot => c.inputSlot.setWidth 64
  | .retainedSlot => c.retainedSlot.setWidth 64
  | .payoutSlot => c.payoutSlot.setWidth 64

def predicate (registers : Registers) : PredicateSource → Word64
  | .always => 1
  | .beforeDeadline => .ofBool c.beforeDeadline
  | .terminal => .ofBool c.terminal
  | .hasPayout => .ofBool c.hasPayout
  | .scratch0 => registers .scratch0
  | .scratch1 => registers .scratch1

end Context

inductive ProgramError where
  | encoding (step : ℕ)
  | nonBooleanPredicate (step : ℕ)
  | overflow (step : ℕ)
  | underflow (step : ℕ)
  | assertion (step : ℕ)
deriving DecidableEq, Repr

def validateProgram (program : Program) : Except ProgramError Unit :=
  program.toList.zipIdx.forM fun (fields, step) =>
    require (Instruction.fromFields fields).isSome (.encoding step)

def unpackState (state : Block128) : Word64 × Word64 := (state.setWidth 64, (state >>> 64).setWidth 64)

def packState (state : Word64 × Word64) : Block128 := state.1.setWidth 128 ||| state.2.setWidth 128 <<< 64

/-- What an operation writes to its destination, given what stands there. -/
def Opcode.apply (step : ℕ) (current left right : Word64) : Opcode → Except ProgramError Word64
  | .keep => .ok current
  | .move => .ok left
  | .add => orElseThrow (.overflow step) (left.checkedAdd right)
  | .subtract => orElseThrow (.underflow step) (left.checkedSub right)
  | .min => .ok (if left ≤ right then left else right)
  | .max => .ok (if right ≤ left then left else right)
  | .lessThan => .ok (.ofBool (decide (left < right)))
  | .equal => .ok (.ofBool (decide (left = right)))
  | .assertEqual => do
    require (left = right) (.assertion step)
    return current
  | .assertLessOrEqual => do
    require (left ≤ right) (.assertion step)
    return current

namespace Opcode

variable {step : ℕ} {current left right v : Word64}

lemma apply_assertLessOrEqual :
    Opcode.assertLessOrEqual.apply step current left right = .ok v ↔ left ≤ right ∧ current = v := by
  simp only [apply, ok_rules]

lemma apply_add :
    Opcode.add.apply step current left right = .ok v ↔ left.toNat + right.toNat < U64 ∧ left + right = v := by
  simp only [apply, orElseThrow_eq_ok, Word64.checkedAdd]
  split_ifs with h <;> simp [h]

lemma apply_subtract : Opcode.subtract.apply step current left right = .ok v ↔ right ≤ left ∧ left - right = v := by
  simp only [apply, orElseThrow_eq_ok, Word64.checkedSub]
  split_ifs with h <;> simp [h]

end Opcode

/-- One instruction, if its guard holds. -/
def Instruction.run (c : Context) (i : Instruction) (step : ℕ) (registers : Registers) :
    Except ProgramError Registers := do
  let predicate := c.predicate registers i.predicate.source
  require (predicate.toNat ≤ 1) (.nonBooleanPredicate step)
  if decide (predicate = 1) = i.predicate.inverted then return registers
  let left := c.operand registers i.immediate i.left
  let right := c.operand registers i.immediate i.right
  let value ← i.opcode.apply step (registers i.destination) left right
  return update registers i.destination value

/-- The registers at the start of a call. -/
def initialRegisters (state : Word64 × Word64) : Registers
  | .state0 => state.1
  | .state1 => state.2
  | .scratch0 => 0
  | .scratch1 => 0

/-- Run a program on a packed state. -/
def execute (program : Program) (current : Block128) (context : Context) : Except ProgramError Block128 := do
  validateProgram program
  let registers ← program.toList.zipIdx.foldlM (fun registers (fields, step) => do
    -- decoding succeeds: the program was validated
    let instruction ← orElseThrow (.encoding step) (Instruction.fromFields fields)
    instruction.run context step registers) (initialRegisters (unpackState current))
  return packState (registers .state0, registers .state1)

/-! ### Encoding -/

namespace Instruction

lemma ctorIdx_lt (i : Instruction) : i.opcode.ctorIdx < 10 ∧ i.destination.ctorIdx < 4 ∧ i.left.ctorIdx < 24 ∧
    i.right.ctorIdx < 24 ∧ i.predicate.source.ctorIdx < 6 := by
  refine ⟨?_, ?_, ?_, ?_, ?_⟩
  · cases i.opcode <;> decide
  · cases i.destination <;> decide
  · cases i.left <;> decide
  · cases i.right <;> decide
  · cases i.predicate.source <;> decide

lemma descriptor_eq (i : Instruction) :
    i.descriptor = i.opcode.ctorIdx + 2 ^ 4 * i.destination.ctorIdx + 2 ^ 6 * i.left.ctorIdx +
      2 ^ 11 * i.right.ctorIdx + 2 ^ 16 * i.predicate.source.ctorIdx + 2 ^ 19 * i.predicate.inverted.toNat := by
  obtain ⟨hopcode, hdestination, hleft, hright, hsource⟩ := i.ctorIdx_lt
  unfold descriptor
  rw [or_shiftLeft_of_lt (k := 4) (by omega), or_shiftLeft_of_lt (k := 6) (by omega),
    or_shiftLeft_of_lt (k := 11) (by omega), or_shiftLeft_of_lt (k := 16) (by omega),
    or_shiftLeft_of_lt (k := 19) (by omega)]

/-- An encoded instruction is read back. -/
theorem fromFields_toFields (i : Instruction) : fromFields i.toFields = some i := by
  have hword := i.descriptor_eq
  obtain ⟨hopcode, hdestination, hleft, hright, hsource⟩ := i.ctorIdx_lt
  have hinverted : i.predicate.inverted.toNat < 2 := Bool.toNat_lt _
  have hnat : (BitVec.ofNat 128 i.descriptor).toNat = i.descriptor := by
    rw [BitVec.toNat_ofNat, Nat.mod_eq_of_lt (by omega)]
  have hguard : i.descriptor >>> INSTRUCTION_BITS = 0 ∧ (i.immediate.setWidth 128).toNat ≤ U64_MAX := by
    rw [Nat.shiftRight_eq_div_pow, BitVec.toNat_setWidth_of_le (by decide)]
    unfold INSTRUCTION_BITS U64_MAX
    omega
  -- every field is cut out of the descriptor
  have h1 : i.descriptor &&& 15 = i.opcode.ctorIdx := by
    rw [show 15 = 2 ^ 4 - 1 from rfl, Nat.and_two_pow_sub_one_eq_mod]
    omega
  have h2 : i.descriptor >>> 4 &&& 3 = i.destination.ctorIdx := by
    rw [show 3 = 2 ^ 2 - 1 from rfl, shiftRight_and_mask]
    omega
  have h3 : i.descriptor >>> 6 &&& 31 = i.left.ctorIdx := by
    rw [show 31 = 2 ^ 5 - 1 from rfl, shiftRight_and_mask]
    omega
  have h4 : i.descriptor >>> 11 &&& 31 = i.right.ctorIdx := by
    rw [show 31 = 2 ^ 5 - 1 from rfl, shiftRight_and_mask]
    omega
  have h5 : i.descriptor >>> 16 &&& 7 = i.predicate.source.ctorIdx := by
    rw [show 7 = 2 ^ 3 - 1 from rfl, shiftRight_and_mask]
    omega
  have h6 : decide (i.descriptor &&& 1 <<< 19 ≠ 0) = i.predicate.inverted := by
    rw [Nat.one_shiftLeft, Nat.and_two_pow, Nat.testBit_eq_decide_div_mod_eq]
    cases hinv : i.predicate.inverted <;> simp only [hinv, Bool.toNat_false, Bool.toNat_true] at hword <;>
      simp <;> omega
  have hall1 : Opcode.ALL[i.opcode.ctorIdx]? = some i.opcode := by cases i.opcode <;> rfl
  have hall2 : Register.decode i.destination.ctorIdx = i.destination := by cases i.destination <;> rfl
  have hall3 : ∀ o : Operand, Operand.ALL[o.ctorIdx]? = some o := by
    intro o
    cases o <;> rfl
  have hall5 : PredicateSource.ALL[i.predicate.source.ctorIdx]? = some i.predicate.source := by
    cases i.predicate.source <;> rfl
  have himmediate : (i.immediate.setWidth 128).setWidth 64 = i.immediate := by
    rw [BitVec.setWidth_setWidth_of_le _ (by decide), BitVec.setWidth_eq]
  simp only [fromFields, toFields, hnat, guard, hguard, and_self, if_true, h1, h2, h3, h4, h5, h6, hall1, hall2,
    hall3, hall5, himmediate]
  rfl

/-- The empty slots of a program do nothing. -/
def empty : Instruction where
  opcode := .keep
  destination := .state0
  left := .state0
  right := .state0
  predicate := .ALWAYS
  immediate := 0

end Instruction

/-! ### States -/

lemma toNat_packState (s : Word64 × Word64) : (packState s).toNat = s.1.toNat + 2 ^ 64 * s.2.toNat := by
  have h1 := s.1.isLt
  rw [packState, BitVec.toNat_or, BitVec.toNat_shiftLeft, BitVec.toNat_setWidth_of_le (by decide),
    BitVec.toNat_setWidth_of_le (by decide), Nat.mod_eq_of_lt, or_shiftLeft_of_lt h1]
  omega

lemma unpackState_packState (s : Word64 × Word64) : unpackState (packState s) = s := by
  refine Prod.ext (BitVec.eq_of_toNat_eq ?_) (BitVec.eq_of_toNat_eq ?_)
  · rw [unpackState, BitVec.toNat_setWidth, toNat_packState]
    omega
  · rw [unpackState, BitVec.toNat_setWidth, BitVec.toNat_ushiftRight, Nat.shiftRight_eq_div_pow, toNat_packState]
    omega

lemma packState_unpackState (s : Block128) : packState (unpackState s) = s := by
  refine BitVec.eq_of_toNat_eq ?_
  rw [toNat_packState, unpackState, BitVec.toNat_setWidth, BitVec.toNat_setWidth, BitVec.toNat_ushiftRight,
    Nat.shiftRight_eq_div_pow]
  omega

/-! ### Decoded programs -/

/-- Run decoded instructions, numbered from `step`. -/
def runInstructions (c : Context) (step : ℕ) (l : List Instruction) (registers : Registers) :
    Except ProgramError Registers :=
  (l.zipIdx step).foldlM (fun registers (i, step) => i.run c step registers) registers

variable {c : Context}

lemma runInstructions_append (step : ℕ) (l l' : List Instruction) (registers : Registers) :
    runInstructions c step (l ++ l') registers =
      runInstructions c step l registers >>= runInstructions c (step + l.length) l' := by
  rw [runInstructions, zipIdx_append, foldlM_append]
  rfl

variable {l : List Instruction} {i : Instruction}

lemma fromFields_isSome_of_toList {program : Program} (h : program.toList = l.map Instruction.toFields) :
    ∀ x ∈ program.toList.zipIdx, (Instruction.fromFields x.1).isSome := by
  rintro ⟨fields, step⟩ hmem
  rw [h] at hmem
  obtain ⟨i, -, rfl⟩ := mem_map.mp (fst_mem_of_mem_zipIdx hmem)
  rw [Instruction.fromFields_toFields]
  rfl

lemma execute_eq {program : Program} (h : program.toList = l.map Instruction.toFields)
    (current : Block128) (c : Context) :
    execute program current c = (runInstructions c 0 l (initialRegisters (unpackState current))).map
        fun registers => packState (registers .state0, registers .state1) := by
  have hvalid : validateProgram program = .ok () := by
    rw [validateProgram, forM_eq_ok]
    exact fun x hx => require_of _ (fromFields_isSome_of_toList h x hx)
  have hrun : (program.toList.zipIdx.foldlM (fun registers (fields, step) => do
      let instruction ← orElseThrow (ProgramError.encoding step) (Instruction.fromFields fields)
      instruction.run c step registers) (initialRegisters (unpackState current))) =
      runInstructions c 0 l (initialRegisters (unpackState current)) := by
    rw [h, zipIdx_map, foldlM_map, runInstructions]
    simp only [Prod.map, Instruction.fromFields_toFields]
    rfl
  rw [execute, bind_of_ok hvalid, hrun]
  cases runInstructions c 0 l (initialRegisters (unpackState current)) <;> rfl

/-! ### Guards -/

/-- The truth of a guard, unless it is no truth value. -/
def Predicate.status (c : Context) (regs : Registers) (p : Predicate) : Option Bool :=
  if (c.predicate regs p.source).toNat ≤ 1 then some (decide (c.predicate regs p.source = 1) != p.inverted) else none

def Predicate.reads (p : Predicate) : Option Register :=
  match p.source with
  | .scratch0 => some .scratch0
  | .scratch1 => some .scratch1
  | _ => none

variable {p : Predicate} {regs regs' : Registers}

lemma Predicate.status_congr (h : ∀ r, p.reads = some r → regs' r = regs r) :
    p.status c regs' = p.status c regs := by
  unfold Predicate.status
  have hsource : c.predicate regs' p.source = c.predicate regs p.source := by
    unfold Predicate.reads at h
    cases hs : p.source <;> rw [hs] at h <;> first | rfl | exact h _ rfl
  rw [hsource]

lemma status_of_ofBool {b : Bool} (h : c.predicate regs p.source = .ofBool b) :
    p.status c regs = some (b != p.inverted) := by
  unfold Predicate.status
  rw [h]
  cases b <;> simp [Word64.ofBool]

lemma status_always (c : Context) (regs : Registers) : Predicate.ALWAYS.status c regs = some true :=
  status_of_ofBool (b := true) rfl

lemma run_invalid (h : i.predicate.status c regs = none) (step : ℕ) :
    ∃ e, i.run c step regs = .error e := by
  unfold Predicate.status at h
  split_ifs at h with hle
  refine ⟨.nonBooleanPredicate step, ?_⟩
  rw [Instruction.run, require, if_neg hle]
  rfl

lemma run_inactive (h : i.predicate.status c regs = some false) (step : ℕ) :
    i.run c step regs = .ok regs := by
  unfold Predicate.status at h
  split_ifs at h with hle
  have heq : decide (c.predicate regs i.predicate.source = 1) = i.predicate.inverted := by
    simpa using Option.some.inj h
  rw [Instruction.run, require_bind hle, if_pos heq]
  rfl

lemma run_active (h : i.predicate.status c regs = some true) (step : ℕ) :
    i.run c step regs = (do
      let value ← i.opcode.apply step (regs i.destination) (c.operand regs i.immediate i.left)
        (c.operand regs i.immediate i.right)
      return update regs i.destination value) := by
  unfold Predicate.status at h
  split_ifs at h with hle
  have hne : ¬ decide (c.predicate regs i.predicate.source = 1) = i.predicate.inverted := by
    simpa using Option.some.inj h
  rw [Instruction.run, require_bind hle, if_neg hne]

lemma runInstructions_nil (step : ℕ) : runInstructions c step [] regs = .ok regs := rfl

lemma runInstructions_cons (step : ℕ) (i : Instruction) (l : List Instruction) :
    runInstructions c step (i :: l) regs = i.run c step regs >>= runInstructions c (step + 1) l := by
  rfl

lemma runInstructions_skip (h : i.predicate.status c regs = some false) (step : ℕ)
    (l : List Instruction) : runInstructions c step (i :: l) regs = runInstructions c (step + 1) l regs := by
  rw [runInstructions_cons, bind_of_ok (run_inactive h step)]

section
variable (h : i.predicate.status c regs = some true)
include h

/-- An instruction under an active guard that does not fail. -/
theorem runInstructions_step {step : ℕ} {v : Word64}
    (hv : i.opcode.apply step (regs i.destination) (c.operand regs i.immediate i.left)
      (c.operand regs i.immediate i.right) = .ok v) (l : List Instruction) :
    runInstructions c step (i :: l) regs = runInstructions c (step + 1) l (update regs i.destination v) := by
  have hrun : i.run c step regs = .ok (update regs i.destination v) := by
    rw [run_active h, bind_of_ok hv]
    rfl
  rw [runInstructions_cons, bind_of_ok hrun]

lemma runInstructions_active (step : ℕ) (l : List Instruction) :
    runInstructions c step (i :: l) regs =
      i.opcode.apply step (regs i.destination) (c.operand regs i.immediate i.left) (c.operand regs i.immediate i.right) >>=
        fun v => runInstructions c (step + 1) l (update regs i.destination v) := by
  rw [runInstructions_cons, run_active h, bind_assoc]
  rfl

lemma runInstructions_assertLessOrEqual (hop : i.opcode = .assertLessOrEqual) (step : ℕ) (l : List Instruction) :
    runInstructions c step (i :: l) regs = (do
      require (c.operand regs i.immediate i.left ≤ c.operand regs i.immediate i.right) (.assertion step)
      runInstructions c (step + 1) l regs) := by
  rw [runInstructions_active h, hop, Opcode.apply, bind_assoc]
  simp only [pure_bind, update_eq_self]

lemma runInstructions_assertEqual (hop : i.opcode = .assertEqual) (step : ℕ) (l : List Instruction) :
    runInstructions c step (i :: l) regs = (do
      require (c.operand regs i.immediate i.left = c.operand regs i.immediate i.right) (.assertion step)
      runInstructions c (step + 1) l regs) := by
  rw [runInstructions_active h, hop, Opcode.apply, bind_assoc]
  simp only [pure_bind, update_eq_self]

lemma runInstructions_add (hop : i.opcode = .add) (step : ℕ) (l : List Instruction) :
    runInstructions c step (i :: l) regs = (do
      require ((c.operand regs i.immediate i.left).toNat + (c.operand regs i.immediate i.right).toNat < U64)
        (.overflow step)
      runInstructions c (step + 1) l (update regs i.destination
        (c.operand regs i.immediate i.left + c.operand regs i.immediate i.right))) := by
  rw [runInstructions_active h, hop, Opcode.apply, Word64.checkedAdd, require]
  split_ifs <;> rfl

lemma runInstructions_ok {step : ℕ} (hok : runInstructions c step (i :: l) regs = .ok regs') :
    ∃ v, i.opcode.apply step (regs i.destination) (c.operand regs i.immediate i.left)
        (c.operand regs i.immediate i.right) = .ok v ∧
      runInstructions c (step + 1) l (update regs i.destination v) = .ok regs' := by
  rw [runInstructions_cons, run_active h] at hok
  simp only [ok_rules] at hok
  obtain ⟨_, ⟨v, hv, rfl⟩, hrest⟩ := hok
  exact ⟨v, hv, hrest⟩

end

lemma runInstructions_inactive (h : p.status c regs = some false) :
    ∀ {code : List Instruction} {step : ℕ}, (∀ i ∈ code, i.predicate = p) →
      runInstructions c step code regs = .ok regs
  | [], _, _ => rfl
  | i :: code, step, hcode => by
    have hi : i.predicate.status c regs = some false := by rw [hcode i mem_cons_self, h]
    rw [runInstructions_skip hi]
    exact runInstructions_inactive h fun j hj => hcode j (.tail _ hj)

/-! ### Short programs -/

/-- A program of a few instructions, followed by empty ones. -/
def padProgram (l : List Instruction) : Program :=
  .ofFn fun i => match l[i.val]? with
    | some instruction => instruction.toFields
    | none => (0, 0)

lemma padProgram_toList (h : l.length ≤ PROGRAM_STEPS) : (padProgram l).toList =
      (l ++ replicate (PROGRAM_STEPS - l.length) Instruction.empty).map Instruction.toFields := by
  refine ext_getElem (by simp [h]) ?_
  intro i h1 h2
  simp only [padProgram, Vector.getElem_toList, Vector.getElem_ofFn, getElem_map]
  by_cases hlt : i < l.length
  · rw [getElem?_eq_getElem hlt, getElem_append_left hlt]
  · rw [getElem?_eq_none (not_lt.mp hlt), getElem_append_right (not_lt.mp hlt), getElem_replicate]
    rfl

lemma runInstructions_empty (c : Context) (regs : Registers) :
    ∀ n step : ℕ, runInstructions c step (replicate n Instruction.empty) regs = .ok regs
  | 0, _ => rfl
  | n + 1, step => by
    have hrun : Instruction.empty.run c step regs = .ok regs := by
      exact congrArg Except.ok (update_eq_self _ _)
    rw [replicate_succ, runInstructions_cons, bind_of_ok hrun, runInstructions_empty c regs n]

lemma execute_padProgram (h : l.length ≤ PROGRAM_STEPS) (s : Word64 × Word64) (c : Context) :
    execute (padProgram l) (packState s) c =
      (runInstructions c 0 l (initialRegisters s)).map fun regs => packState (regs .state0, regs .state1) := by
  rw [execute_eq (padProgram_toList h), unpackState_packState, runInstructions_append]
  cases runInstructions c 0 l (initialRegisters s) with
  | error e => rfl
  | ok regs =>
    change Except.map _ (runInstructions c _ _ regs) = _
    rw [runInstructions_empty]

end Noid.Tx
