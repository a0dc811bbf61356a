import Noid.Pruv.Environment

/-! # Direct semantics of contracts

What a contract means, without its compiled program.  An expression has a word or a truth value, or fails when an addition
or a subtraction leaves `u64`.  The body of a `when` runs exactly when its condition, evaluated once on entry, is true. -/

namespace Noid.Pruv

open Noid.Lib Noid.Tx

/-- A value of a running contract. -/
inductive Scalar where
  | word (n : Word64)
  | truth (b : Bool)
deriving DecidableEq, Repr

def Scalar.ty : Scalar → Ty
  | .word _ => .u64
  | .truth _ => .bool

/-- The value in a register. -/
def Scalar.toWord : Scalar → Word64
  | .word n => n
  | .truth b => .ofBool b

/-- Addresses have no value in a call. -/
def Value.scalar : Value → Option Scalar
  | .u64 n => some (.word n)
  | .bool b => some (.truth b)
  | .address _ => none

/-- The two state variables of a contract. -/
abbrev StatePair := Word64 × Word64

/-- State variables are kept in the two state registers. -/
def readState (s : StatePair) : Register → Option Word64
  | .state0 => some s.1
  | .state1 => some s.2
  | _ => none

def writeState (s : StatePair) (n : Word64) : Register → Option StatePair
  | .state0 => some (n, s.2)
  | .state1 => some (s.1, n)
  | _ => none

/-- What a contract can read besides its state. -/
structure Scope where
  context : Context
  deadline : Word64
  /-- The state before the call, in postconditions. -/
  old : Option StatePair

/-- The values of a call by their names. -/
def Scope.callValue (scope : Scope) : String → Option Scalar
  | "before_deadline" => some (.truth (decide (scope.context.height < scope.deadline)))
  | "after_deadline" => some (.truth (decide (scope.deadline ≤ scope.context.height)))
  | "terminal" => some (.truth scope.context.terminal)
  | "has_payout" => some (.truth scope.context.hasPayout)
  | "height" => some (.word scope.context.height)
  | "fee" => some (.word scope.context.fee)
  | "payout" => some (.word scope.context.payout)
  | "retained" => some (.word scope.context.retained)
  | "input_amount" => some (.word scope.context.inputAmount)
  | "payout_owner0" => some (.word scope.context.payoutOwner0)
  | "payout_owner1" => some (.word scope.context.payoutOwner1)
  | "payout_owner2" => some (.word scope.context.payoutOwner2)
  | "payout_owner3" => some (.word scope.context.payoutOwner3)
  | "input_creation_id" => some (.word scope.context.inputCreationId)
  | "input_slot" => some (.word (scope.context.inputSlot.setWidth 64))
  | "retained_slot" => some (.word (scope.context.retainedSlot.setWidth 64))
  | "payout_slot" => some (.word (scope.context.payoutSlot.setWidth 64))
  | _ => none

/-- An operator on words. -/
def Op.onWords (a b : Word64) : Op → Option Scalar
  | .add => (a.checkedAdd b).map .word
  | .subtract => (a.checkedSub b).map .word
  | .min => some (.word (if a ≤ b then a else b))
  | .max => some (.word (if b ≤ a then a else b))
  | .equal => some (.truth (decide (a = b)))
  | .notEqual => some (.truth (decide (a ≠ b)))
  | .less => some (.truth (decide (a < b)))
  | .lessEqual => some (.truth (decide (a ≤ b)))
  | .greater => some (.truth (decide (b < a)))
  | .greaterEqual => some (.truth (decide (b ≤ a)))

/-- An operator on truth values. -/
def Op.onTruths (a b : Bool) : Op → Option Scalar
  | .equal => some (.truth (a == b))
  | .notEqual => some (.truth (a != b))
  | _ => none

def Op.eval (op : Op) : Scalar → Scalar → Option Scalar
  | .word a, .word b => op.onWords a b
  | .truth a, .truth b => op.onTruths a b
  | _, _ => none

section
variable (env : Environment) (scope : Scope)

/-- The value of an expression in a state. -/
def eval (s : StatePair) : Expr → Option Scalar
  | .value v _ => v.scalar
  | .name n _ =>
    match env.values.lookup n with
    | some v => v.scalar
    | none =>
      match env.states.lookup n with
      | some r => (readState s r).map .word
      | none => scope.callValue n
  | .old n _ => do
    let before ← scope.old
    let r ← env.states.lookup n
    (readState before r).map .word
  | .not e _ => do
    match ← eval s e with
    | .truth b => some (.truth !b)
    | .word _ => none
  | .binary op left right _ => do
    let a ← eval s left
    let b ← eval s right
    op.eval a b

mutual

def runStatement (s : StatePair) : Statement → Option StatePair
  | .assign name value _ => do
    let r ← env.states.lookup name
    match ← eval env scope s value with
    | .word n => writeState s n r
    | .truth _ => none
  | .require condition => do
    match ← eval env scope s condition with
    | .truth true => some s
    | _ => none
  | .when condition body => do
    match ← eval env scope s condition with
    | .truth true => runBlock s body
    | .truth false => some s
    | .word _ => none

def runBlock (s : StatePair) : List Statement → Option StatePair
  | [] => some s
  | statement :: rest => do
    let s ← runStatement s statement
    runBlock s rest

end

end

/-! ### Types -/

variable {env : Environment} {scope : Scope} {s : StatePair}

/-- The state variables are in the state registers, and no declared name is a value of a call. -/
structure Environment.WellFormed (env : Environment) : Prop where
  states : ∀ n r, env.states.lookup n = some r → r = .state0 ∨ r = .state1
  builtin : ∀ n, (builtin n).isSome → env.values.lookup n = none ∧ env.states.lookup n = none

lemma builtin_callValue (n : String) : (builtin n).map Prod.snd = (scope.callValue n).map Scalar.ty := by
  unfold builtin Scope.callValue
  split
  case h_18 => split <;> simp_all
  all_goals rfl

lemma Op.onWords_ty {op : Op} {a b : Word64} {v : Scalar} (h : op.onWords a b = some v) :
    v.ty = if op.isArithmetic then .u64 else .bool := by
  cases op
  case add | subtract =>
    obtain ⟨n, -, rfl⟩ := Option.map_eq_some_iff.mp h
    rfl
  all_goals
    cases h
    rfl

lemma Op.onTruths_ty {op : Op} {a b : Bool} {v : Scalar} (h : op.onTruths a b = some v) : v.ty = .bool := by
  cases op
  case equal | notEqual =>
    cases h
    rfl
  all_goals cases h

/-- A typed expression evaluates at its type. -/
theorem ty_sound {old : Bool} {e : Expr} {t : Ty} {v : Scalar} (h : env.ty old e = .ok t)
    (hv : eval env scope s e = some v) : v.ty = t := by
  induction e generalizing t v with
  | value c span =>
    cases h
    cases c with
    | u64 n =>
      cases hv
      rfl
    | bool b =>
      cases hv
      rfl
    | address text => cases hv
  | name n span =>
    simp only [Environment.ty, orElseThrow_eq_ok] at h
    simp only [eval] at hv
    cases hvalue : env.values.lookup n with
    | some c =>
      rw [hvalue] at h hv
      cases h
      cases c with
      | u64 n =>
        cases hv
        rfl
      | bool b =>
        cases hv
        rfl
      | address text => cases hv
    | none =>
      rw [hvalue] at h hv
      cases hstate : env.states.lookup n with
      | some r =>
        rw [hstate] at h hv
        cases h
        obtain ⟨n, -, rfl⟩ := Option.map_eq_some_iff.mp hv
        rfl
      | none =>
        rw [hstate] at h hv
        simp only at hv
        rw [builtin_callValue, hv] at h
        cases h
        rfl
  | old n span =>
    simp only [eval, Option.bind_eq_bind, Option.bind_eq_some_iff, Option.map_eq_some_iff] at hv
    obtain ⟨-, -, -, -, n, -, rfl⟩ := hv
    simp only [Environment.ty] at h
    split_ifs at h
    cases h
    rfl
  | not e span ih =>
    simp only [Environment.ty, ok_rules] at h
    obtain ⟨-, -, -, -, rfl⟩ := h
    simp only [eval, Option.bind_eq_bind, Option.bind_eq_some_iff] at hv
    obtain ⟨a, -, ha⟩ := hv
    cases a with
    | word n => cases ha
    | truth b =>
      cases ha
      rfl
  | binary op left right span ihl ihr =>
    simp only [Environment.ty, bind_eq_ok] at h
    obtain ⟨l, hl, r, hr, h⟩ := h
    simp only [eval, Option.bind_eq_bind, Option.bind_eq_some_iff] at hv
    obtain ⟨a, ha, b, hb, hop⟩ := hv
    have hal := ihl hl ha
    have hbr := ihr hr hb
    by_cases hbool : op.isEquality = true ∧ l = .bool ∧ r = .bool
    · rw [if_pos hbool] at h
      cases h
      obtain ⟨-, rfl, rfl⟩ := hbool
      cases a with
      | word n => cases hal
      | truth a =>
        cases b with
        | word n => cases hbr
        | truth b => exact Op.onTruths_ty hop
    · rw [if_neg hbool] at h
      simp only [ok_rules] at h
      obtain ⟨⟨rfl, rfl⟩, rfl⟩ := h
      cases a with
      | truth n => cases hal
      | word a =>
        cases b with
        | truth n => cases hbr
        | word b => exact Op.onWords_ty hop

/-! ### Compile-time values -/

lemma Environment.binaryValue_eq_ok {op : Op} {span : Span} {l r v : Value}
    (h : Environment.binaryValue op span l r = .ok v) :
    ∃ a b, l.scalar = some a ∧ r.scalar = some b ∧ op.eval a b = v.scalar := by
  cases l with
  | address text => cases r <;> cases h
  | bool a =>
    cases r with
    | u64 b => cases h
    | address text => cases h
    | bool b =>
      refine ⟨_, _, rfl, rfl, ?_⟩
      cases op
      case equal | notEqual =>
        cases h
        rfl
      all_goals cases h
  | u64 a =>
    cases r with
    | bool b => cases h
    | address text => cases h
    | u64 b =>
      refine ⟨_, _, rfl, rfl, ?_⟩
      cases op
      case add | subtract =>
        simp only [Environment.binaryValue, ok_rules] at h
        obtain ⟨n, hn, rfl⟩ := h
        simp [Op.eval, Op.onWords, hn, Value.scalar]
      all_goals
        cases h
        rfl

/-- A compile-time value is what evaluation gives, in every state. -/
theorem eval_value {A : AddressCodec} {e : Expr} {v : Value} (h : env.value A e = .ok v) :
    eval env scope s e = v.scalar := by
  induction e generalizing v with
  | value c span =>
    cases c with
    | u64 n =>
      cases h
      rfl
    | bool b =>
      cases h
      rfl
    | address text =>
      simp only [Environment.value, ok_rules] at h
      obtain ⟨address, -, rfl⟩ := h
      rfl
  | name n span =>
    simp only [Environment.value, orElseThrow_eq_ok] at h
    simp only [eval, h]
  | old n span => cases h
  | not e span ih =>
    simp only [Environment.value, bind_eq_ok] at h
    obtain ⟨c, hc, h⟩ := h
    simp only [eval, ih hc]
    cases c with
    | u64 n => cases h
    | address text => cases h
    | bool b =>
      cases h
      rfl
  | binary op left right span ihl ihr =>
    simp only [Environment.value, bind_eq_ok] at h
    obtain ⟨l, hl, r, hr, h⟩ := h
    obtain ⟨a, b, ha, hb, hop⟩ := Environment.binaryValue_eq_ok h
    simp only [eval, ihl hl, ihr hr, ha, hb]
    exact hop

end Noid.Pruv
