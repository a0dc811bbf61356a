import Mathlib.Tactic.Linarith

/-! # Queries over bit-vectors

Terms with 64-bit words and truth values, and scripts of declarations, definitions, assertions and questions.  Under an
assignment a script extends the environment at every definition and records at every question whether all assertions so
far hold; a solver answers whether some assignment makes them hold. -/

namespace Noid.Lib

open List

inductive SmtValue where
  | bv (n : BitVec 64)
  | bool (b : Bool)
deriving DecidableEq, Repr

/-- The binary functions. -/
inductive SmtOp where
  | bvadd | bvsub | bvule | bvult | bvuge | bvugt | eq | distinct | or | implies
deriving DecidableEq, Repr

/-- Terms over symbols in `S`. -/
inductive SmtTerm (S : Type) where
  | bv (n : BitVec 64)
  | bool (b : Bool)
  | symbol (s : S)
  | not (t : SmtTerm S)
  | bvnot (t : SmtTerm S)
  | op (o : SmtOp) (left right : SmtTerm S)
  | ite (c left right : SmtTerm S)
  /-- A parallel `let` of two symbols. -/
  | letPair (x y : S) (left right body : SmtTerm S)

/-- The lines of a script. -/
inductive SmtCommand (S : Type) where
  /-- A line that declares and asserts nothing: a comment or an option. -/
  | line (text : String)
  | declareBv (s : S)
  | declareBool (s : S)
  | assert (t : SmtTerm S)
  /-- The assertion that some term of a list fails. -/
  | assertNotAnd (l : List (SmtTerm S))
  | define (s : S) (t : SmtTerm S)
  | checkSat

variable {S : Type} [DecidableEq S]

/-! ### Terms -/

def SmtOp.eval : SmtOp → SmtValue → SmtValue → Option SmtValue
  | .bvadd, .bv a, .bv b => some (.bv (a + b))
  | .bvsub, .bv a, .bv b => some (.bv (a - b))
  | .bvule, .bv a, .bv b => some (.bool (decide (a ≤ b)))
  | .bvult, .bv a, .bv b => some (.bool (decide (a < b)))
  | .bvuge, .bv a, .bv b => some (.bool (decide (b ≤ a)))
  | .bvugt, .bv a, .bv b => some (.bool (decide (b < a)))
  | .eq, .bv a, .bv b => some (.bool (decide (a = b)))
  | .eq, .bool a, .bool b => some (.bool (a == b))
  | .distinct, .bv a, .bv b => some (.bool (decide (a ≠ b)))
  | .distinct, .bool a, .bool b => some (.bool (a != b))
  | .or, .bool a, .bool b => some (.bool (a || b))
  | .implies, .bool a, .bool b => some (.bool (!a || b))
  | _, _, _ => none

namespace SmtTerm

/-- The value of a term, if it is well sorted and its symbols are bound. -/
def eval (env : S → Option SmtValue) : SmtTerm S → Option SmtValue
  | .bv n => some (.bv n)
  | .bool b => some (.bool b)
  | .symbol s => env s
  | .not t => do
    match ← t.eval env with
    | .bool b => some (.bool !b)
    | .bv _ => none
  | .bvnot t => do
    match ← t.eval env with
    | .bv n => some (.bv (~~~n))
    | .bool _ => none
  | .op o left right => do
    let a ← left.eval env
    let b ← right.eval env
    o.eval a b
  | .ite c left right => do
    match ← c.eval env with
    | .bool b => if b then left.eval env else right.eval env
    | .bv _ => none
  | .letPair x y left right body => do
    let a ← left.eval env
    let b ← right.eval env
    body.eval (Function.update (Function.update env x (some a)) y (some b))

def holds (env : S → Option SmtValue) (t : SmtTerm S) : Bool := decide (t.eval env = some (.bool true))

variable {env : S → Option SmtValue} {l r c : SmtTerm S}

lemma eval_op {o : SmtOp} {a b : SmtValue} (hl : l.eval env = some a) (hr : r.eval env = some b) :
    (op o l r).eval env = o.eval a b := by
  simp only [eval, hl, hr, Option.bind_eq_bind, Option.bind_some]

lemma eval_op_of {o : SmtOp} {a b v : SmtValue} (hl : l.eval env = some a) (hr : r.eval env = some b)
    (ho : o.eval a b = some v) : (op o l r).eval env = some v := (eval_op hl hr).trans ho

lemma eval_ite {b : Bool} (hc : c.eval env = some (.bool b)) :
    (ite c l r).eval env = if b then l.eval env else r.eval env := by
  simp only [eval, hc, Option.bind_eq_bind, Option.bind_some]

/-- One of two words, by a comparison. -/
theorem eval_choose {o : SmtOp} {a b : BitVec 64} {p : Prop} [Decidable p] (hl : l.eval env = some (.bv a))
    (hr : r.eval env = some (.bv b)) (ho : o.eval (.bv a) (.bv b) = some (.bool (decide p))) :
    (ite (op o l r) l r).eval env = some (.bv (if p then a else b)) := by
  rw [eval_ite (eval_op_of hl hr ho)]
  by_cases hp : p
  · simp [hp, hl]
  · simp [hp, hr]

lemma eval_not {b : Bool} (hc : c.eval env = some (.bool b)) : (not c).eval env = some (.bool !b) := by
  simp only [eval, hc, Option.bind_eq_bind, Option.bind_some]

lemma eval_bvnot {n : BitVec 64} (hc : c.eval env = some (.bv n)) : (bvnot c).eval env = some (.bv (~~~n)) := by
  simp only [eval, hc, Option.bind_eq_bind, Option.bind_some]

lemma eval_letPair {x y : S} {body : SmtTerm S} {a b : SmtValue} (hl : l.eval env = some a)
    (hr : r.eval env = some b) :
    (letPair x y l r body).eval env = body.eval (Function.update (Function.update env x (some a)) y (some b)) := by
  simp only [eval, hl, hr, Option.bind_eq_bind, Option.bind_some]

lemma holds_of_eval {b : Bool} (h : c.eval env = some (.bool b)) : c.holds env = b := by
  unfold holds
  rw [h]
  cases b <;> rfl

end SmtTerm

/-! ### Scripts -/

/-- The environment of a script and whether all its assertions hold so far. -/
structure SmtState (S : Type) where
  env : S → Option SmtValue
  ok : Bool

def SmtCommand.run (st : SmtState S) : SmtCommand S → SmtState S
  | .assert t => { st with ok := st.ok && t.holds st.env }
  | .assertNotAnd l => { st with ok := st.ok && !l.all (SmtTerm.holds st.env) }
  | .define s t => { st with env := Function.update st.env s (t.eval st.env) }
  | _ => st

def runCommands (st : SmtState S) (script : List (SmtCommand S)) : SmtState S := script.foldl SmtCommand.run st

def SmtCommand.isCheckSat : SmtCommand S → Bool
  | .checkSat => true
  | _ => false

/-- Whether the assertions hold at each question. -/
def verdicts : SmtState S → List (SmtCommand S) → List Bool
  | _, [] => []
  | st, .checkSat :: script => st.ok :: verdicts st script
  | st, c :: script => verdicts (c.run st) script

lemma verdicts_append : ∀ (st : SmtState S) (l l' : List (SmtCommand S)),
    verdicts st (l ++ l') = verdicts st l ++ verdicts (runCommands st l) l'
  | _, [], _ => rfl
  | st, .checkSat :: l, l' => congrArg (st.ok :: ·) (verdicts_append st l l')
  | st, .assert t :: l, l' => verdicts_append ((SmtCommand.assert t).run st) l l'
  | st, .assertNotAnd t :: l, l' => verdicts_append ((SmtCommand.assertNotAnd t).run st) l l'
  | st, .define s t :: l, l' => verdicts_append ((SmtCommand.define s t).run st) l l'
  | st, .line _ :: l, l' => verdicts_append st l l'
  | st, .declareBv _ :: l, l' => verdicts_append st l l'
  | st, .declareBool _ :: l, l' => verdicts_append st l l'

lemma length_verdicts (st : SmtState S) (l : List (SmtCommand S)) :
    (verdicts st l).length = l.countP SmtCommand.isCheckSat := by
  induction l generalizing st with
  | nil => rfl
  | cons c l ih =>
    cases c with
    | checkSat => exact (congrArg (· + 1) (ih st)).trans (countP_cons_of_pos rfl).symm
    | _ => exact (ih _).trans (countP_cons_of_neg Bool.false_ne_true).symm

/-- A script without questions. -/
theorem verdicts_of_quiet {st : SmtState S} {l : List (SmtCommand S)} (h : .checkSat ∉ l) : verdicts st l = [] := by
  induction l generalizing st with
  | nil => rfl
  | cons c l ih =>
    have hl : verdicts (c.run st) l = [] := ih fun hmem => h (.tail _ hmem)
    cases c with
    | checkSat => exact absurd mem_cons_self h
    | _ => exact hl

lemma runCommands_append (st : SmtState S) (l l' : List (SmtCommand S)) :
    runCommands st (l ++ l') = runCommands (runCommands st l) l' := foldl_append ..

lemma runCommands_failed {st : SmtState S} (h : st.ok = false) (l : List (SmtCommand S)) :
    (runCommands st l).ok = false := by
  induction l generalizing st with
  | nil => exact h
  | cons c l ih =>
    refine ih ?_
    cases c <;> simp [SmtCommand.run, h]

/-! ### Solvers -/

inductive SmtAnswer where
  | sat | unsat | other (text : String)
deriving DecidableEq, Repr

/-- An assignment that respects the declared sorts. -/
structure WellSorted (script : List (SmtCommand S)) (env : S → Option SmtValue) : Prop where
  bv : ∀ s, .declareBv s ∈ script → ∃ n, env s = some (.bv n)
  bool : ∀ s, .declareBool s ∈ script → ∃ b, env s = some (.bool b)

/-- Some assignment makes the assertions before a question hold. -/
def Satisfiable (script : List (SmtCommand S)) (question : ℕ) : Prop :=
  ∃ env, WellSorted script env ∧ (verdicts { env := env, ok := true } script)[question]? = some true

/-- The answers of a solver that decides every question of a script. -/
structure CorrectAnswers (script : List (SmtCommand S)) (answers : List SmtAnswer) : Prop where
  length : answers.length = script.countP SmtCommand.isCheckSat
  sat : ∀ (k : ℕ) (h : k < answers.length), answers[k] = .sat ↔ Satisfiable script k
  unsat : ∀ (k : ℕ) (h : k < answers.length), answers[k] = .unsat ↔ ¬Satisfiable script k

end Noid.Lib
