import Noid.Pruv.Syntax
import Noid.Tx.Types

/-! # Environments

An environment binds names to compile-time values and to the two state registers; the values of a call have fixed names,
which cannot be declared.  The text form of addresses is a parameter (`AddressCodec`). -/

namespace Noid.Pruv

open Noid.Lib Noid.Tx

/-- The bech32 form of addresses. -/
structure AddressCodec where
  parse : String → Except String Address
  toBech32 : Address → String

/-- Names in the order of their declaration, each declared once. -/
structure Environment where
  values : List (String × Value)
  states : List (String × Register)

def Environment.empty : Environment := { values := [], states := [] }

/-- The values of a call. -/
def builtin : String → Option (Operand × Ty)
  | "height" => some (.height, .u64)
  | "fee" => some (.fee, .u64)
  | "payout" => some (.payout, .u64)
  | "retained" => some (.retained, .u64)
  | "input_amount" => some (.inputAmount, .u64)
  | "before_deadline" => some (.beforeDeadline, .bool)
  | "after_deadline" => some (.afterDeadline, .bool)
  | "terminal" => some (.terminal, .bool)
  | "has_payout" => some (.hasPayout, .bool)
  | "payout_owner0" => some (.payoutOwner0, .u64)
  | "payout_owner1" => some (.payoutOwner1, .u64)
  | "payout_owner2" => some (.payoutOwner2, .u64)
  | "payout_owner3" => some (.payoutOwner3, .u64)
  | "input_creation_id" => some (.inputCreationId, .u64)
  | "input_slot" => some (.inputSlot, .u64)
  | "retained_slot" => some (.retainedSlot, .u64)
  | "payout_slot" => some (.payoutSlot, .u64)
  | _ => none

/-- Words of the language that are no values of a call. -/
def keywords : List String :=
  ["contract", "param", "const", "state", "policy", "call", "when", "require", "ensures", "old", "min", "max",
    "true", "false", "u64", "bool", "address", "state0", "state1", "scratch0", "scratch1"]

def reserved (name : String) : Bool := (builtin name).isSome || name ∈ keywords

def Op.isArithmetic : Op → Bool
  | .add | .subtract | .min | .max => true
  | _ => false

def Op.isEquality : Op → Bool
  | .equal | .notEqual => true
  | _ => false

namespace Environment

variable (A : AddressCodec) (env : Environment)

def declare (name : String) (span : Span) : Except Error Unit := do
  require (reserved name = false) (span.error ("'" ++ name ++ "' is reserved"))
  require ((env.values.lookup name).isNone ∧ (env.states.lookup name).isNone)
    (span.error ("duplicate declaration '" ++ name ++ "'"))

def ty (old : Bool) : Expr → Except Error Ty
  | .value v _ => .ok v.ty
  | .name n span =>
    orElseThrow (span.error ("unknown name '" ++ n ++ "'"))
      (((env.values.lookup n).map Value.ty).or
        (((env.states.lookup n).map fun _ => Ty.u64).or ((builtin n).map Prod.snd)))
  | .old n span =>
    if old ∧ (env.states.lookup n).isSome then .ok .u64
    else .error (span.error "old() is available for state variables in ensures only")
  | .not e span => do
    let t ← ty old e
    require (t = .bool) (span.error "'!' requires bool")
    return .bool
  | .binary op left right span => do
    let l ← ty old left
    let r ← ty old right
    if op.isEquality ∧ l = .bool ∧ r = .bool then return .bool
    require (l = .u64 ∧ r = .u64) (span.error "operator requires u64 operands")
    return if op.isArithmetic then .u64 else .bool

def constant : Expr → Bool
  | .value _ _ => true
  | .name n _ => (env.values.lookup n).isSome
  | .old _ _ => false
  | .not e _ => constant e
  | .binary _ left right _ => constant left && constant right

def binaryValue (op : Op) (span : Span) : Value → Value → Except Error Value
  | .bool l, .bool r =>
    match op with
    | .equal => .ok (.bool (l == r))
    | .notEqual => .ok (.bool (l != r))
    | _ => .error (span.error "operator requires u64 operands")
  | .u64 l, .u64 r =>
    match op with
    | .add => do
      let sum ← orElseThrow (span.error "constant addition overflows u64") (Word64.checkedAdd l r)
      return .u64 sum
    | .subtract => do
      let difference ← orElseThrow (span.error "constant subtraction underflows u64") (Word64.checkedSub l r)
      return .u64 difference
    | .min => .ok (.u64 (if l ≤ r then l else r))
    | .max => .ok (.u64 (if r ≤ l then l else r))
    | .equal => .ok (.bool (decide (l = r)))
    | .notEqual => .ok (.bool (decide (l ≠ r)))
    | .less => .ok (.bool (decide (l < r)))
    | .lessEqual => .ok (.bool (decide (l ≤ r)))
    | .greater => .ok (.bool (decide (r < l)))
    | .greaterEqual => .ok (.bool (decide (r ≤ l)))
  | _, _ => .error (span.error "operator requires u64 operands")

def value : Expr → Except Error Value
  | .value (.address text) span => do
    let address ← (A.parse text).mapError span.error
    return .address (A.toBech32 address)
  | .value v _ => .ok v
  | .name n span => orElseThrow (span.error ("'" ++ n ++ "' is not a compile-time value")) (env.values.lookup n)
  | .not e span => do
    match ← value e with
    | .bool b => return .bool !b
    | _ => .error (span.error "'!' requires bool")
  | .binary op left right span => do
    let l ← value left
    let r ← value right
    binaryValue op span l r
  | .old _ span => .error (span.error "old() is not a compile-time value")

end Environment

end Noid.Pruv
