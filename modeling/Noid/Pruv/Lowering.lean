import Noid.Pruv.Environment

/-! # Lowering

The body of a contract becomes predicated straight-line code.  A subexpression that is neither a constant nor a name gets
one of the two scratch registers, which the operation that consumes it takes over or releases.  The body of a `when` is
guarded by a predicate of the call, or by a scratch register that holds the condition while the body is lowered. -/

namespace Noid.Pruv

open Noid.Lib Noid.Tx

def registerOperand : Register → Operand
  | .state0 => .state0
  | .state1 => .state1
  | .scratch0 => .scratch0
  | .scratch1 => .scratch1

/-- An operand of an instruction, with the scratch register that it holds. -/
structure Word where
  operand : Operand
  immediate : Word64
  temporary : Option Register
deriving DecidableEq, Repr

namespace Word

def literal (value : Word64) : Word where
  operand := if value = 0 then .zero else if value = 1 then .one else .immediate
  immediate := value
  temporary := none

def register (r : Register) (temporary : Bool) : Word where
  operand := registerOperand r
  immediate := 0
  temporary := if temporary then some r else none

end Word

/-- The instructions so far and the scratch registers in use. -/
structure Lowering where
  program : List Instruction
  scratch0 : Bool
  scratch1 : Bool
  fits : program.length ≤ PROGRAM_STEPS
deriving DecidableEq, Repr

namespace Lowering

def start : Lowering := { program := [], scratch0 := false, scratch1 := false, fits := Nat.zero_le _ }

def allocate (st : Lowering) (span : Span) : Except Error (Register × Lowering) :=
  if st.scratch0 = false then .ok (.scratch0, { st with scratch0 := true })
  else if st.scratch1 = false then .ok (.scratch1, { st with scratch1 := true })
  else .error (span.error
    "expression needs more than two scratch registers; simplify it or split the state update")

def release (st : Lowering) : Register → Lowering
  | .scratch0 => { st with scratch0 := false }
  | .scratch1 => { st with scratch1 := false }
  | _ => st

lemma fits_append (st : Lowering) (h : ¬st.program.length = PROGRAM_STEPS) (i : Instruction) :
    (st.program ++ [i]).length ≤ PROGRAM_STEPS := by
  rw [List.length_append]
  exact Nat.lt_of_le_of_ne st.fits h

def emit (st : Lowering) (opcode : Opcode) (destination : Register) (left right : Word) (predicate : Predicate)
    (span : Span) : Except Error Lowering :=
  if h : st.program.length = PROGRAM_STEPS then
    .error (span.error "compiled program exceeds ABI 3's 16 instructions")
  else do
    require (¬(left.operand = .immediate ∧ right.operand = .immediate ∧ left.immediate ≠ right.immediate))
      (span.error "instruction requires two distinct immediate values")
    let immediate :=
      if left.operand = .immediate then left.immediate
      else if right.operand = .immediate then right.immediate
      else 0
    let instruction : Instruction :=
      { opcode := opcode, destination := destination, left := left.operand, right := right.operand
        predicate := predicate, immediate := immediate }
    return { st with program := st.program ++ [instruction], fits := st.fits_append h instruction }

/-- Where a result goes: the target, the scratch register of an operand, or a new one. -/
def destination (st : Lowering) (left right : Word) (target : Option Register) (span : Span) :
    Except Error (Register × Lowering) :=
  match target.or (left.temporary.or right.temporary) with
  | some r => .ok (r, st)
  | none => st.allocate span

def negate (st : Lowering) (invert : Bool) (destination : Register) (predicate : Predicate) (span : Span) :
    Except Error Lowering :=
  if invert then st.emit .equal destination (.register destination false) (.literal 0) predicate span
  else .ok st

/-- The tail of a lowered operation: choose the destination, emit, release the other operand, and invert a negated
comparison. -/
def finish (st : Lowering) (opcode : Opcode) (left right : Word) (invert : Bool) (target : Option Register)
    (predicate : Predicate) (span : Span) : Except Error (Word × Lowering) := do
  let (destination, st) ← st.destination left right target span
  let st ← st.emit opcode destination left right predicate span
  let st := (left.temporary.toList ++ right.temporary.toList).foldl
    (fun st r => if r = destination then st else st.release r) st
  let st ← st.negate invert destination predicate span
  return (.register destination target.isNone, st)

end Lowering

/-- The instruction of an operator: its opcode, and whether it swaps its operands and inverts its result. -/
def Op.lower : Op → Opcode × Bool × Bool
  | .add => (.add, false, false)
  | .subtract => (.subtract, false, false)
  | .min => (.min, false, false)
  | .max => (.max, false, false)
  | .equal => (.equal, false, false)
  | .notEqual => (.equal, false, true)
  | .less => (.lessThan, false, false)
  | .lessEqual => (.lessThan, true, true)
  | .greater => (.lessThan, true, false)
  | .greaterEqual => (.lessThan, false, true)

namespace Environment

variable (A : AddressCodec) (env : Environment)

/-- The operand of a constant or of a name, which needs no instruction. -/
def direct (e : Expr) : Option (Except Error Word) :=
  if env.constant e then
    some do
      match ← env.value A e with
      | .u64 n => return .literal n
      | .bool b => return .literal (.ofBool b)
      | .address _ => .error (e.span.error "addresses belong in the policy")
  else
    match e with
    | .name n _ =>
      match env.states.lookup n with
      | some r => some (.ok (.register r false))
      | none => (builtin n).map fun b => .ok { operand := b.1, immediate := 0, temporary := none }
    | _ => none

/-- A direct operand, or else one that has to be computed. -/
def orDirect (direct : Option (Except Error Word)) (st : Lowering) (computed : Except Error (Word × Lowering)) :
    Except Error (Word × Lowering) :=
  match direct with
  | some w => do
    let w ← w
    return (w, st)
  | none => computed

/-- Lower an operator and its operands: the source's `word` and `expression`.  Unbound names, on which they would not
return, are rejected by `ty`. -/
def compound : Expr → Option Register → Predicate → Lowering → Except Error (Word × Lowering)
  | .not inner span, target, predicate, st => do
    let (left, st) ← orDirect (env.direct A inner) st (compound inner none predicate st)
    st.finish .equal left (.literal 0) false target predicate span
  | .binary op l r span, target, predicate, st => do
    let (left, st) ← orDirect (env.direct A l) st (compound l none predicate st)
    let (right, st) ← orDirect (env.direct A r) st (compound r none predicate st)
    let (opcode, swap, invert) := op.lower
    if swap then st.finish opcode right left invert target predicate span
    else st.finish opcode left right invert target predicate span
  | e, _, _, _ => .error (e.span.error "unsupported runtime expression")

/-- An expression as an operand. -/
def word (e : Expr) (predicate : Predicate) (st : Lowering) : Except Error (Word × Lowering) :=
  orDirect (env.direct A e) st (env.compound A e none predicate st)

/-- An expression into a register, or as an operand. -/
def expression (e : Expr) (target : Option Register) (predicate : Predicate) (st : Lowering) :
    Except Error (Word × Lowering) :=
  match env.direct A e with
  | some w => do
    let value ← w
    match target with
    | some t => do
      let st ← st.emit .move t value (.literal 0) predicate e.span
      return (.register t false, st)
    | none => return (value, st)
  | none => env.compound A e target predicate st

/-- A condition that the call decides. -/
def directPredicate : Expr → Option Predicate
  | .not inner _ => (directPredicate inner).map Predicate.not
  | .name "before_deadline" _ => some .BEFORE_DEADLINE
  | .name "after_deadline" _ => some Predicate.BEFORE_DEADLINE.not
  | .name "terminal" _ => some { source := .terminal, inverted := false }
  | .name "has_payout" _ => some { source := .hasPayout, inverted := false }
  | _ => none

/-- The assertion that an operator lowers to directly, with its operands swapped or not. -/
def assertion : Op → Option (Opcode × Bool)
  | .equal => some (.assertEqual, false)
  | .lessEqual => some (.assertLessOrEqual, false)
  | .greaterEqual => some (.assertLessOrEqual, true)
  | _ => none

def requireComparison (opcode : Opcode) (swap : Bool) (l r : Expr) (predicate : Predicate) (span : Span)
    (st : Lowering) : Except Error Lowering := do
  let (left, st) ← env.word A l predicate st
  let (right, st) ← env.word A r predicate st
  let (left, right) := if swap then (right, left) else (left, right)
  let st ← st.emit opcode .state0 left right predicate span
  return (left.temporary.toList ++ right.temporary.toList).foldl Lowering.release st

def requireTrue (e : Expr) (predicate : Predicate) (st : Lowering) : Except Error Lowering := do
  let (value, st) ← env.word A e predicate st
  let st ← st.emit .assertEqual .state0 value (.literal 1) predicate e.span
  return value.temporary.toList.foldl Lowering.release st

def lowerRequire (e : Expr) (predicate : Predicate) (st : Lowering) : Except Error Lowering :=
  if env.constant e then env.requireTrue A e predicate st
  else
    match e with
    | .binary op l r span =>
      match assertion op with
      | some (opcode, swap) => env.requireComparison A opcode swap l r predicate span st
      | none => env.requireTrue A e predicate st
    | _ => env.requireTrue A e predicate st

def guardOn (r : Register) : Predicate where
  source := if r = .scratch0 then .scratch0 else .scratch1
  inverted := false

mutual

def lowerStatement (predicate : Predicate) (st : Lowering) : Statement → Except Error Lowering
  | .assign name value span => do
    let target ← orElseThrow (span.error ("'" ++ name ++ "' is not a state variable")) (env.states.lookup name)
    let t ← env.ty false value
    require (t = .u64) (value.span.error "state assignment requires u64")
    let (_, st) ← env.expression A value (some target) predicate st
    return st
  | .require value => do
    let t ← env.ty false value
    require (t = .bool) (value.span.error "require needs a bool expression")
    env.lowerRequire A value predicate st
  | .when condition body => do
    let t ← env.ty false condition
    require (t = .bool) (condition.span.error "when needs a bool expression")
    match if predicate = .ALWAYS then directPredicate condition else none with
    | some direct => block direct st body
    | none => do
      let (register, st) ← st.allocate condition.span
      let st ← st.emit .move register (.literal 0) (.literal 0) .ALWAYS condition.span
      let (_, st) ← env.expression A condition (some register) predicate st
      let st ← block (guardOn register) st body
      return st.release register

def block (predicate : Predicate) (st : Lowering) : List Statement → Except Error Lowering
  | [] => .ok st
  | statement :: rest => do
    let st ← lowerStatement predicate st statement
    block predicate st rest

end

end Environment

end Noid.Pruv
