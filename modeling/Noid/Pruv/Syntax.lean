import Noid.Tx.IntegerProgram

/-! # Syntax of contracts

The tree that the parser gives.  Literals are `u64`, so a tree holds no larger number.  Places in the text are kept for
the errors; the depth of an expression, which only the parser reads, is not. -/

namespace Noid.Pruv

open Noid.Tx

structure Error where
  line : ℕ
  column : ℕ
  message : String
deriving DecidableEq, Repr

def Error.plain (message : String) : Error := { line := 0, column := 0, message := message }

structure Span where
  line : ℕ
  column : ℕ
deriving DecidableEq, Repr

def Span.error (s : Span) (message : String) : Error :=
  { line := s.line, column := s.column, message := message }

/-- The source's `Type`. -/
inductive Ty where
  | u64 | bool | address
deriving DecidableEq, Repr

def Ty.name : Ty → String
  | .u64 => "U64"
  | .bool => "Bool"
  | .address => "Address"

inductive Value where
  | u64 (n : Word64)
  | bool (b : Bool)
  | address (text : String)
deriving DecidableEq, Repr

def Value.ty : Value → Ty
  | .u64 _ => .u64
  | .bool _ => .bool
  | .address _ => .address

inductive Op where
  | add | subtract | min | max | equal | notEqual | less | lessEqual | greater | greaterEqual
deriving DecidableEq, Repr

/-- An expression of a contract, with spans. -/
inductive Expr where
  | value (v : Value) (span : Span)
  | name (n : String) (span : Span)
  | old (n : String) (span : Span)
  | not (e : Expr) (span : Span)
  | binary (op : Op) (left right : Expr) (span : Span)
deriving DecidableEq, Repr

def Expr.span : Expr → Span
  | .value _ s => s
  | .name _ s => s
  | .old _ s => s
  | .not _ s => s
  | .binary _ _ _ s => s

/-- A statement of a contract's body. -/
inductive Statement where
  | assign (name : String) (value : Expr) (span : Span)
  | require (condition : Expr)
  | when (condition : Expr) (body : List Statement)

structure Declaration where
  name : String
  ty : Ty
  value : Option Expr
  span : Span

structure Source where
  name : String
  params : List Declaration
  constants : List Declaration
  states : List Declaration
  policy : List (String × Expr × Span)
  body : List Statement
  ensures : List Expr

/-- A parameter object; null, numbers and arrays are never accepted. -/
inductive Json where
  | bool (b : Bool)
  | string (s : String)
  | object (fields : List (String × Json))
  | other

end Noid.Pruv
