import Noid.Lib.Smt
import Noid.Pruv.Compile

/-! # The contract verifier

`smt` writes the query of a contract.  Every step of the program asserts that its guard is a truth value and that its
operation does not fail when the guard is active.  The first question is whether some execution succeeds; the second one
adds that some postcondition fails, or overflows. -/

namespace Noid.Pruv

open Noid.Lib Noid.Tx

/-! ### Symbols -/

/-- The declared words. -/
inductive QueryWord where
  | oldState (r : Register)
  | height | fee | payout | retained | inputAmount
  | payoutOwner0 | payoutOwner1 | payoutOwner2 | payoutOwner3
  | inputCreationId | inputSlot | retainedSlot | payoutSlot
deriving DecidableEq, Repr

/-- The declared truth values. -/
inductive QueryFlag where
  | terminal | hasPayout
deriving DecidableEq, Repr

inductive QuerySymbol where
  | word (w : QueryWord)
  | flag (f : QueryFlag)
  /-- What a step leaves in its destination. -/
  | register (index : ℕ) (destination : Register)
  | left | right
deriving DecidableEq, Repr

abbrev QueryTerm := SmtTerm QuerySymbol

abbrev QueryCommand := SmtCommand QuerySymbol

def queryWords : List QueryWord :=
  [.oldState .state0, .oldState .state1, .height, .fee, .payout, .retained, .inputAmount, .payoutOwner0,
    .payoutOwner1, .payoutOwner2, .payoutOwner3, .inputCreationId, .inputSlot, .retainedSlot, .payoutSlot]

def queryFlags : List QueryFlag := [.terminal, .hasPayout]

def querySlots : List QueryWord := [.inputSlot, .retainedSlot, .payoutSlot]

/-! ### Terms -/

namespace QueryTerm

def word (w : QueryWord) : QueryTerm := .symbol (.word w)

/-- A truth value as a word. -/
def flag (condition : QueryTerm) : QueryTerm := .ite condition (.bv 1) (.bv 0)

def context (deadline : Word64) : Operand → QueryTerm
  | .beforeDeadline => flag (.op .bvult (word .height) (.bv deadline))
  | .afterDeadline => flag (.op .bvuge (word .height) (.bv deadline))
  | .terminal => flag (.symbol (.flag .terminal))
  | .hasPayout => flag (.symbol (.flag .hasPayout))
  | .zero => .bv 0
  | .one => .bv 1
  | .height => word .height
  | .fee => word .fee
  | .payout => word .payout
  | .retained => word .retained
  | .inputAmount => word .inputAmount
  | .payoutOwner0 => word .payoutOwner0
  | .payoutOwner1 => word .payoutOwner1
  | .payoutOwner2 => word .payoutOwner2
  | .payoutOwner3 => word .payoutOwner3
  | .inputCreationId => word .inputCreationId
  | .inputSlot => word .inputSlot
  | .retainedSlot => word .retainedSlot
  | .payoutSlot => word .payoutSlot
  -- registers and immediates are resolved separately
  | .state0 | .state1 | .scratch0 | .scratch1 | .immediate => .bv 0

def read (immediate : Word64) (registers : Register → QueryTerm) (deadline : Word64) : Operand → QueryTerm
  | .state0 => registers .state0
  | .state1 => registers .state1
  | .scratch0 => registers .scratch0
  | .scratch1 => registers .scratch1
  | .immediate => .bv immediate
  | operand => context deadline operand

def predicate (registers : Register → QueryTerm) (deadline : Word64) : PredicateSource → QueryTerm
  | .always => .bv 1
  | .beforeDeadline => context deadline .beforeDeadline
  | .terminal => context deadline .terminal
  | .hasPayout => context deadline .hasPayout
  | .scratch0 => registers .scratch0
  | .scratch1 => registers .scratch1

/-- The term that an operation writes, and what must hold for it not to fail. -/
def operation (left right previous : QueryTerm) : Opcode → QueryTerm × Option QueryTerm
  | .keep => (previous, none)
  | .move => (left, none)
  | .add => (.op .bvadd left right, some (.op .bvule left (.bvnot right)))
  | .subtract => (.op .bvsub left right, some (.op .bvuge left right))
  | .min => (.ite (.op .bvule left right) left right, none)
  | .max => (.ite (.op .bvuge left right) left right, none)
  | .lessThan => (flag (.op .bvult left right), none)
  | .equal => (flag (.op .eq left right), none)
  | .assertEqual => (previous, some (.op .eq left right))
  | .assertLessOrEqual => (previous, some (.op .bvule left right))

end QueryTerm

/-! ### Postconditions -/

/-- A term and the conditions under which no operation in it overflows. -/
structure Expression where
  term : QueryTerm
  checks : List QueryTerm

namespace Expression

def of (term : QueryTerm) : Expression := { term := term, checks := [] }

/-- A compile-time value. -/
def ofValue (span : Span) : Value → Except Error Expression
  | .u64 n => .ok (of (.bv n))
  | .bool b => .ok (of (.bool b))
  | .address _ => .error (span.error "addresses cannot appear in postconditions")

/-- A value of a call. -/
def ofBuiltin (deadline : Word64) : Operand × Ty → Expression
  | (operand, .bool) => of (.op .eq (QueryTerm.context deadline operand) (.bv 1))
  | (operand, _) => of (QueryTerm.context deadline operand)

/-- The smaller or larger of two terms. -/
def select (o : SmtOp) (left right : QueryTerm) : QueryTerm :=
  .letPair .left .right left right (.ite (.op o (.symbol .left) (.symbol .right)) (.symbol .left) (.symbol .right))

def binary (op : Op) (left right : Expression) : Expression :=
  let checks := left.checks ++ right.checks
  match op with
  | .add =>
    { term := .op .bvadd left.term right.term, checks := checks ++ [.op .bvule left.term (.bvnot right.term)] }
  | .subtract =>
    { term := .op .bvsub left.term right.term, checks := checks ++ [.op .bvuge left.term right.term] }
  | .min => { term := select .bvule left.term right.term, checks := checks }
  | .max => { term := select .bvuge left.term right.term, checks := checks }
  | .equal => { term := .op .eq left.term right.term, checks := checks }
  | .notEqual => { term := .op .distinct left.term right.term, checks := checks }
  | .less => { term := .op .bvult left.term right.term, checks := checks }
  | .lessEqual => { term := .op .bvule left.term right.term, checks := checks }
  | .greater => { term := .op .bvugt left.term right.term, checks := checks }
  | .greaterEqual => { term := .op .bvuge left.term right.term, checks := checks }

end Expression

def expression (env : Environment) (registers : Register → QueryTerm) (deadline : Word64) :
    Expr → Except Error Expression
  | .value v span => Expression.ofValue span v
  | .name n span =>
    match env.values.lookup n with
    | some v => Expression.ofValue span v
    | none =>
      match env.states.lookup n with
      | some r => .ok (.of (registers r))
      | none => do
        let b ← orElseThrow (span.error "unknown postcondition name") (builtin n)
        return .ofBuiltin deadline b
  | .old n span => do
    let r ← orElseThrow (span.error "old() requires a state variable") (env.states.lookup n)
    return .of (QueryTerm.word (.oldState r))
  | .not inner _ => do
    let e ← expression env registers deadline inner
    return { e with term := .not e.term }
  | .binary op left right _ => do
    let l ← expression env registers deadline left
    let r ← expression env registers deadline right
    return .binary op l r

/-! ### The query -/

/-- The commands of one step of the program, and the registers behind it. -/
def smtStep (deadline : Word64) (index : ℕ) (step : Instruction) (registers : Register → QueryTerm) :
    List QueryCommand × (Register → QueryTerm) :=
  let predicate := QueryTerm.predicate registers deadline step.predicate.source
  let active : QueryTerm := .op .eq predicate (.bv (Word64.ofBool !step.predicate.inverted))
  let left := QueryTerm.read step.immediate registers deadline step.left
  let right := QueryTerm.read step.immediate registers deadline step.right
  let previous := registers step.destination
  let (value, check) := QueryTerm.operation left right previous step.opcode
  let name := QuerySymbol.register index step.destination
  ([.assert (.op .or (.op .eq predicate (.bv 0)) (.op .eq predicate (.bv 1)))] ++
    (check.toList.map fun check => .assert (.op .implies active check)) ++
    [.define name (.ite active value previous)],
    Function.update registers step.destination (.symbol name))

/-- The commands of a program, numbered from `index`. -/
def smtProgram (deadline : Word64) : ℕ → List Instruction → (Register → QueryTerm) →
    List QueryCommand × (Register → QueryTerm)
  | _, [], registers => ([], registers)
  | index, step :: rest, registers =>
    let (commands, registers) := smtStep deadline index step registers
    let (more, registers) := smtProgram deadline (index + 1) rest registers
    (commands ++ more, registers)

/-- The registers before the program. -/
def oldRegisters : Register → QueryTerm
  | .state0 => QueryTerm.word (.oldState .state0)
  | .state1 => QueryTerm.word (.oldState .state1)
  | .scratch0 => .bv 0
  | .scratch1 => .bv 0

/-- The head of a query: the declarations, and the bounds of the slots. -/
def smtHead : List QueryCommand :=
  [.line "; Pruv / Parano1d contract ABI 3",
    .line "; Expected results: sat, unsat. Initial state is universally quantified.",
    .line "(set-logic QF_BV)", .line "(set-option :timeout 10000)"] ++
  queryWords.map (fun w => .declareBv (.word w)) ++ queryFlags.map (fun f => .declareBool (.flag f)) ++
  querySlots.map fun w => .assert (.op .bvule (QueryTerm.word w) (.bv 0xffffffff))

/-- The conditions of all postconditions: that nothing overflows in them and that they are true. -/
def smtConditions (env : Environment) (registers : Register → QueryTerm) (deadline : Word64) (ensures : List Expr) :
    Except Error (List QueryTerm) := do
  let expressions ← ensures.mapM (expression env registers deadline)
  return expressions.flatMap fun e => e.checks ++ [e.term]

def decodeProgram (program : Program) : Except Error (List Instruction) :=
  program.toList.mapM fun fields =>
    orElseThrow (.plain "invalid instruction encoding") (Instruction.fromFields fields)

/-- A query up to its first question, and the registers at its end. -/
def smtExecution (deadline : Word64) (steps : List Instruction) : List QueryCommand × (Register → QueryTerm) :=
  let (commands, registers) := smtProgram deadline 0 steps oldRegisters
  (smtHead ++ commands, registers)

def questions (conditions : List QueryTerm) : List QueryCommand :=
  [.line "; Feasibility of successful integer-program execution.", .checkSat,
    .line "; Search for a postcondition violation.", .assertNotAnd conditions, .checkSat]

def smt (contract : CompiledContract) : Except Error (List QueryCommand) := do
  require (contract.source.ensures ≠ []) (.plain "declare at least one ensures postcondition")
  let steps ← decodeProgram contract.opening.program
  let (commands, registers) := smtExecution contract.deadline steps
  let conditions ← smtConditions contract.env registers contract.deadline contract.source.ensures
  return commands ++ questions conditions

/-! ### The verdict -/

inductive Verdict where
  | verified | counterexample | infeasible
deriving DecidableEq, Repr

def verdict : List SmtAnswer → Except Error Verdict
  | [.sat, .unsat] => .ok .verified
  | [.sat, .sat] => .ok .counterexample
  | [.unsat, .unsat] => .ok .infeasible
  | _ => .error (.plain "Z3 did not conclusively answer both queries")

end Noid.Pruv
