import Noid.Pruv.Verify

/-! # The verifier asks the right questions

The query of a contract is run next to its program.  While the assertions hold, the register terms denote the registers of
the machine, and the assertions of a step hold exactly when the step succeeds; after a step that fails they never hold
again.  The terms of a postcondition denote its value, and their side conditions say that it has one. -/

namespace Noid.Pruv

open Noid.Lib Noid.Tx List SmtTerm Function QueryTerm

/-! ### Assignments -/

def queryWord (old : StatePair) (c : Context) : QueryWord → Word64
  | .oldState r => initialRegisters old r
  | .height => c.height
  | .fee => c.fee
  | .payout => c.payout
  | .retained => c.retained
  | .inputAmount => c.inputAmount
  | .payoutOwner0 => c.payoutOwner0
  | .payoutOwner1 => c.payoutOwner1
  | .payoutOwner2 => c.payoutOwner2
  | .payoutOwner3 => c.payoutOwner3
  | .inputCreationId => c.inputCreationId
  | .inputSlot => c.inputSlot.setWidth 64
  | .retainedSlot => c.retainedSlot.setWidth 64
  | .payoutSlot => c.payoutSlot.setWidth 64

def queryFlag (c : Context) : QueryFlag → Bool
  | .terminal => c.terminal
  | .hasPayout => c.hasPayout

/-- An assignment to the symbols of a query. -/
abbrev QueryEnv := QuerySymbol → Option SmtValue

/-- The declared symbols denote the old state and the values of the call. -/
structure Reads (old : StatePair) (c : Context) (q : QueryEnv) : Prop where
  word : ∀ w ∈ queryWords, q (.word w) = some (.bv (queryWord old c w))
  flag : ∀ f, q (.flag f) = some (.bool (queryFlag c f))

variable {old : StatePair} {c : Context} {q : QueryEnv} {deadline : Word64}
  {R : Register → QueryTerm} {regs : Registers}

lemma Reads.update (h : Reads old c q) (index : ℕ) (d : Register) (v : Option SmtValue) :
    Reads old c (update q (.register index d) v) := by
  refine ⟨fun w hw => ?_, fun f => ?_⟩
  · rw [update_of_ne (by simp), h.word w hw]
  · rw [update_of_ne (by simp), h.flag f]

/-! ### Terms -/

variable {t : QueryTerm} {index : ℕ} {o o' : Option Scalar}

lemma eval_flag {b : Bool} (h : t.eval q = some (.bool b)) :
    (QueryTerm.flag t).eval q = some (.bv (Word64.ofBool b)) := by
  rw [flag, eval_ite h]
  cases b <;> rfl

lemma eval_word (h : Reads old c q) {w : QueryWord} (hw : w ∈ queryWords) :
    (QueryTerm.word w).eval q = some (.bv (queryWord old c w)) := h.word w hw

/-- The operands that are values of the call. -/
def ofCall : Operand → Bool
  | .state0 | .state1 | .scratch0 | .scratch1 | .immediate => false
  | _ => true

lemma read_of_call {n : Word64} {o : Operand} (ho : ofCall o = true) :
    QueryTerm.read n R deadline o = QueryTerm.context deadline o := by
  cases o <;> first | rfl | cases ho

section
variable (hdeadline : c.beforeDeadline = decide (c.height < deadline)) (h : Reads old c q)
include hdeadline h

lemma eval_context (regs : Registers) (n : Word64) {o : Operand} (ho : ofCall o = true) :
    (QueryTerm.context deadline o).eval q = some (.bv (c.operand regs n o)) := by
  cases o with
  | state0 | state1 | scratch0 | scratch1 | immediate => cases ho
  | beforeDeadline =>
    rw [Context.operand, hdeadline]
    exact eval_flag (eval_op_of (eval_word h (w := .height) (by decide)) (b := .bv deadline) rfl rfl)
  | afterDeadline =>
    rw [Context.operand, hdeadline, not_decide_lt]
    exact eval_flag (eval_op_of (eval_word h (w := .height) (by decide)) (b := .bv deadline) rfl rfl)
  | terminal => exact eval_flag (h.flag .terminal)
  | hasPayout => exact eval_flag (h.flag .hasPayout)
  | zero => rfl
  | one => rfl
  | _ => exact eval_word h (by decide)

lemma eval_read (hR : ∀ r, (R r).eval q = some (.bv (regs r))) (n : Word64) (o : Operand) :
    (QueryTerm.read n R deadline o).eval q = some (.bv (c.operand regs n o)) := by
  cases o with
  | state0 => exact hR .state0
  | state1 => exact hR .state1
  | scratch0 => exact hR .scratch0
  | scratch1 => exact hR .scratch1
  | immediate => rfl
  | _ =>
    rw [read_of_call rfl]
    exact eval_context hdeadline h regs n rfl

lemma eval_predicate (hR : ∀ r, (R r).eval q = some (.bv (regs r))) (p : PredicateSource) :
    (QueryTerm.predicate R deadline p).eval q = some (.bv (c.predicate regs p)) := by
  cases p with
  | always => rfl
  | scratch0 => exact hR .scratch0
  | scratch1 => exact hR .scratch1
  | beforeDeadline => exact eval_context hdeadline h regs 0 (o := .beforeDeadline) rfl
  | terminal => exact eval_context hdeadline h regs 0 (o := .terminal) rfl
  | hasPayout => exact eval_context hdeadline h regs 0 (o := .hasPayout) rfl

end

/-- No sum overflows below the complement. -/
theorem le_not_iff (a b : Word64) : a ≤ ~~~b ↔ a.toNat + b.toNat < U64 := by
  rw [BitVec.le_def, BitVec.toNat_not]
  unfold U64
  omega

/-- The term of an operation denotes what it writes, its side condition that it does not fail. -/
theorem eval_operation {l r prev : QueryTerm} {a b current : Word64} (hl : l.eval q = some (.bv a))
    (hr : r.eval q = some (.bv b)) (hprev : prev.eval q = some (.bv current)) (o : Opcode) :
    ∃ (v : Word64) (fine : Bool), (QueryTerm.operation l r prev o).1.eval q = some (.bv v) ∧
      ((QueryTerm.operation l r prev o).2.map (SmtTerm.eval q)).getD (some (.bool true)) = some (.bool fine) ∧
      ∀ step, if fine then o.apply step current a b = .ok v else ∃ e, o.apply step current a b = .error e := by
  cases o with
  | keep => exact ⟨current, true, hprev, rfl, fun _ => rfl⟩
  | move => exact ⟨a, true, hl, rfl, fun _ => rfl⟩
  | add =>
    refine ⟨a + b, _, eval_op hl hr, eval_op hl (eval_bvnot hr), fun step => ?_⟩
    simp only [decide_eq_true_eq, le_not_iff, Opcode.apply, Word64.checkedAdd]
    split_ifs
    · rfl
    · exact ⟨_, rfl⟩
  | subtract =>
    refine ⟨a - b, _, eval_op hl hr, eval_op hl hr, fun step => ?_⟩
    simp only [decide_eq_true_eq, Opcode.apply, Word64.checkedSub]
    split_ifs
    · rfl
    · exact ⟨_, rfl⟩
  | min => exact ⟨_, true, eval_choose (p := a ≤ b) hl hr rfl, rfl, fun _ => rfl⟩
  | max => exact ⟨_, true, eval_choose (p := b ≤ a) hl hr rfl, rfl, fun _ => rfl⟩
  | lessThan | equal => exact ⟨_, true, eval_flag (eval_op hl hr), rfl, fun _ => rfl⟩
  | assertEqual | assertLessOrEqual =>
    refine ⟨current, _, hprev, eval_op hl hr, fun step => ?_⟩
    simp only [decide_eq_true_eq, Opcode.apply, require]
    split_ifs
    · rfl
    · exact ⟨_, rfl⟩

/-! ### Steps -/

/-- A term that no later definition changes. -/
def Settled (index : ℕ) : QueryTerm → Prop
  | .bv _ => True
  | .symbol (.word _) => True
  | .symbol (.register j _) => j < index
  | _ => False

lemma Settled.eval_update (h : Settled index t) (d : Register) (v : Option SmtValue) :
    t.eval (update q (.register index d) v) = t.eval q := by
  unfold Settled at h
  split at h
  · rfl
  · exact update_of_ne (by simp) _ _
  · refine update_of_ne ?_ _ _
    rintro ⟨⟩
    exact absurd h (lt_irrefl _)
  · exact h.elim

lemma Settled.mono (h : Settled index t) : Settled (index + 1) t := by
  unfold Settled at h ⊢
  split at h
  · trivial
  · trivial
  · exact Nat.lt_succ_of_lt h
  · exact h.elim

/-- The register terms denote the registers of the machine. -/
structure Represents (old : StatePair) (c : Context) (index : ℕ) (R : Register → QueryTerm) (regs : Registers)
    (q : QueryEnv) : Prop where
  reads : Reads old c q
  settled : ∀ r, Settled index (R r)
  value : ∀ r, (R r).eval q = some (.bv (regs r))

lemma Represents.define (h : Represents old c index R regs q) (d : Register) (n : Word64) :
    Represents old c (index + 1) (update R d (.symbol (.register index d))) (update regs d n)
      (update q (.register index d) (some (.bv n))) := by
  refine ⟨h.reads.update _ _ _, fun r => ?_, fun r => ?_⟩
  · by_cases hr : r = d
    · subst hr
      rw [update_self]
      exact Nat.lt_succ_self index
    · rw [update_of_ne hr]
      exact (h.settled r).mono
  · by_cases hr : r = d
    · subst hr
      rw [update_self, update_self]
      exact update_self _ _ _
    · rw [update_of_ne hr, update_of_ne hr, (h.settled r).eval_update]
      exact h.value r

lemma runCommands_step (st : SmtState QuerySymbol) (t active v : QueryTerm) (check : Option QueryTerm)
    (n : QuerySymbol) :
    runCommands st ([.assert t] ++ (check.toList.map fun check => .assert (.op .implies active check)) ++ [.define n v]) =
      { env := update st.env n (v.eval st.env)
        ok := st.ok && (t.holds st.env && (check.map fun check => (SmtTerm.op .implies active check).holds st.env).getD true) } := by
  cases check with
  | none => simp [runCommands, SmtCommand.run]
  | some check => simp [runCommands, SmtCommand.run, Bool.and_assoc]

lemma eval_guard (hdeadline : c.beforeDeadline = decide (c.height < deadline))
    (h : Represents old c index R regs q) (p : Predicate) :
    ((SmtTerm.op .or (.op .eq (QueryTerm.predicate R deadline p.source) (.bv 0))
      (.op .eq (QueryTerm.predicate R deadline p.source) (.bv 1))).holds q = (p.status c regs).isSome) ∧
    ∀ b, p.status c regs = some b →
      (SmtTerm.op .eq (QueryTerm.predicate R deadline p.source) (.bv (Word64.ofBool !p.inverted))).eval q =
        some (.bool b) := by
  have hp := eval_predicate hdeadline h.reads h.value p.source
  generalize hv : c.predicate regs p.source = v at hp
  have hcases : v.toNat ≤ 1 ↔ v = 0 ∨ v = 1 := by
    have h0 : (0 : Word64).toNat = 0 := rfl
    have h1 : (1 : Word64).toNat = 1 := rfl
    rw [← BitVec.toNat_inj, ← BitVec.toNat_inj, h0, h1]
    omega
  constructor
  · have heq : ∀ n : Word64, (SmtTerm.op .eq (predicate R deadline p.source) (.bv n)).eval q =
        some (.bool (decide (v = n))) := fun n =>
      eval_op_of hp (b := .bv n) rfl rfl
    have hor : (SmtTerm.op .or (.op .eq (predicate R deadline p.source) (.bv 0))
        (.op .eq (predicate R deadline p.source) (.bv 1))).eval q =
          some (.bool (decide (v = 0) || decide (v = 1))) := eval_op (heq 0) (heq 1)
    rw [holds_of_eval hor, ← Bool.decide_or]
    unfold Predicate.status
    rw [hv]
    by_cases hle : v.toNat ≤ 1
    · rw [if_pos hle]
      exact decide_eq_true (hcases.mp hle)
    · rw [if_neg hle]
      exact decide_eq_false fun h => hle (hcases.mpr h)
  · intro b hb
    unfold Predicate.status at hb
    rw [hv] at hb
    split_ifs at hb with hle
    cases hb
    rw [eval_op hp rfl]
    rcases hcases.mp hle with rfl | rfl <;> cases p.inverted <;> rfl

/-- **The assertions of a step hold exactly when it succeeds**; its terms denote the registers behind it. -/
theorem smtStep_run (hdeadline : c.beforeDeadline = decide (c.height < deadline))
    {st : SmtState QuerySymbol} (h : Represents old c index R regs st.env) (hok : st.ok = true) (i : Instruction) :
    match i.run c index regs with
    | .ok regs' => (runCommands st (smtStep deadline index i R).1).ok = true ∧
        Represents old c (index + 1) (smtStep deadline index i R).2 regs' (runCommands st (smtStep deadline index i R).1).env
    | .error _ => (runCommands st (smtStep deadline index i R).1).ok = false := by
  obtain ⟨hguard, hactive⟩ := eval_guard hdeadline h i.predicate
  have hleft := eval_read hdeadline h.reads h.value i.immediate i.left
  have hright := eval_read hdeadline h.reads h.value i.immediate i.right
  obtain ⟨v, fine, hvalue, hcheck, happly⟩ := eval_operation hleft hright (h.value i.destination) i.opcode
  simp only [smtStep, runCommands_step, hok, Bool.true_and, hguard]
  cases hstatus : i.predicate.status c regs with
  | none =>
    obtain ⟨e, he⟩ := run_invalid hstatus index
    rw [he]
    rfl
  | some b =>
    have hb := hactive b hstatus
    -- the side condition is asserted under the guard
    have hassert : ((operation (read i.immediate R deadline i.left)
        (read i.immediate R deadline i.right) (R i.destination) i.opcode).2.map fun check =>
          (SmtTerm.op .implies (SmtTerm.op .eq (predicate R deadline i.predicate.source)
            (.bv (Word64.ofBool !i.predicate.inverted))) check).holds st.env).getD true = (!b || fine) := by
      revert hcheck
      cases (operation (read i.immediate R deadline i.left)
        (read i.immediate R deadline i.right) (R i.destination) i.opcode).2 with
      | none =>
        intro hcheck
        cases hcheck
        simp
      | some check =>
        intro hcheck
        exact holds_of_eval (eval_op hb hcheck)
    simp only [hassert, Option.isSome_some, Bool.true_and]
    rw [eval_ite hb, hvalue, h.value]
    cases b with
    | false =>
      rw [run_inactive hstatus]
      refine ⟨rfl, ?_⟩
      have hdefine := h.define i.destination (regs i.destination)
      rwa [update_eq_self] at hdefine
    | true =>
      rw [run_active hstatus]
      have hstep := happly index
      cases fine with
      | false =>
        obtain ⟨e, he⟩ := hstep
        rw [he]
        rfl
      | true =>
        rw [hstep]
        exact ⟨rfl, h.define i.destination v⟩

/-- The assertions of a program hold exactly when it succeeds. -/
theorem smtProgram_run (hdeadline : c.beforeDeadline = decide (c.height < deadline)) (steps : List Instruction)
    {R : Register → QueryTerm} {regs : Registers} {st : SmtState QuerySymbol}
    (h : Represents old c index R regs st.env) (hok : st.ok = true) :
    match runInstructions c index steps regs with
    | .ok regs' => (runCommands st (smtProgram deadline index steps R).1).ok = true ∧
        Represents old c (index + steps.length) (smtProgram deadline index steps R).2 regs'
          (runCommands st (smtProgram deadline index steps R).1).env
    | .error _ => (runCommands st (smtProgram deadline index steps R).1).ok = false := by
  induction steps generalizing index R regs st with
  | nil => exact ⟨hok, h⟩
  | cons i steps ih =>
    have hstep := smtStep_run hdeadline h hok i
    rw [runInstructions_cons]
    simp only [smtProgram, runCommands_append]
    cases hrun : i.run c index regs with
    | error e =>
      rw [hrun] at hstep
      exact runCommands_failed hstep _
    | ok regs' =>
      rw [hrun] at hstep
      have hrest := ih hstep.2 hstep.1
      rw [Nat.add_right_comm index 1 steps.length] at hrest
      exact hrest

/-! ### The head -/

def wordOf (q : QueryEnv) (w : QueryWord) : Word64 :=
  match q (.word w) with
  | some (.bv n) => n
  | _ => 0

def flagOf (q : QueryEnv) (f : QueryFlag) : Bool :=
  match q (.flag f) with
  | some (.bool b) => b
  | _ => false

def oldOf (q : QueryEnv) : StatePair :=
  (wordOf q (.oldState .state0), wordOf q (.oldState .state1))

/-- The call of an assignment. -/
def contextOf (deadline : Word64) (q : QueryEnv) : Context where
  height := wordOf q .height
  fee := wordOf q .fee
  payout := wordOf q .payout
  retained := wordOf q .retained
  inputAmount := wordOf q .inputAmount
  beforeDeadline := decide (wordOf q .height < deadline)
  terminal := flagOf q .terminal
  hasPayout := flagOf q .hasPayout
  payoutOwner := #v[wordOf q .payoutOwner0, wordOf q .payoutOwner1, wordOf q .payoutOwner2, wordOf q .payoutOwner3]
  inputCreationId := wordOf q .inputCreationId
  inputSlot := (wordOf q .inputSlot).setWidth 32
  retainedSlot := (wordOf q .retainedSlot).setWidth 32
  payoutSlot := (wordOf q .payoutSlot).setWidth 32

/-- The slots of an assignment are `u32` values. -/
def SlotsFit (q : QueryEnv) : Prop := ∀ w ∈ querySlots, wordOf q w ≤ 0xffffffff

lemma setWidth_of_fit {n : Word64} (h : n ≤ 0xffffffff) : (n.setWidth 32).setWidth 64 = n := by
  refine BitVec.eq_of_toNat_eq ?_
  have hn : n.toNat ≤ 0xffffffff := BitVec.le_def.mp h
  rw [BitVec.toNat_setWidth, BitVec.toNat_setWidth]
  omega

lemma reads_contextOf (deadline : Word64) {script : List QueryCommand} (hscript : ∀ x ∈ smtHead, x ∈ script)
    (hsorted : WellSorted script q) (hfit : SlotsFit q) : Reads (oldOf q) (contextOf deadline q) q := by
  have hword : ∀ w ∈ queryWords, q (.word w) = some (.bv (wordOf q w)) := by
    intro w hw
    obtain ⟨n, hn⟩ := hsorted.bv (.word w) (hscript _ (by simp [smtHead, hw]))
    simp only [wordOf, hn]
  have hflag : ∀ f, q (.flag f) = some (.bool (flagOf q f)) := by
    intro f
    have hf : f ∈ queryFlags := by cases f <;> decide
    obtain ⟨b, hb⟩ := hsorted.bool (.flag f) (hscript _ (by simp [smtHead, hf]))
    simp only [flagOf, hb]
  refine ⟨fun w hw => ?_, fun f => ?_⟩
  · rw [hword w hw]
    cases w with
    | oldState r =>
      cases r with
      | state0 | state1 => rfl
      | scratch0 | scratch1 => exact absurd hw (by decide)
    | inputSlot => exact congrArg (some ∘ SmtValue.bv) (setWidth_of_fit (hfit .inputSlot (by decide))).symm
    | retainedSlot => exact congrArg (some ∘ SmtValue.bv) (setWidth_of_fit (hfit .retainedSlot (by decide))).symm
    | payoutSlot => exact congrArg (some ∘ SmtValue.bv) (setWidth_of_fit (hfit .payoutSlot (by decide))).symm
    | _ => rfl
  · rw [hflag f]
    cases f <;> rfl

lemma runCommands_head (hslots : ∀ w ∈ querySlots, q (.word w) = some (.bv (wordOf q w))) :
    (runCommands { env := q, ok := true } smtHead).env = q ∧
      ((runCommands { env := q, ok := true } smtHead).ok = true ↔ SlotsFit q) := by
  have hholds : ∀ w ∈ querySlots, (SmtTerm.op .bvule (word w) (.bv 0xffffffff)).holds q =
      decide (wordOf q w ≤ 0xffffffff) := fun w hw =>
    holds_of_eval (eval_op_of (hslots w hw) (b := .bv 0xffffffff) rfl rfl)
  refine ⟨rfl, ?_⟩
  have hok : (runCommands { env := q, ok := true } smtHead).ok =
      (true && (SmtTerm.op .bvule (word .inputSlot) (.bv 0xffffffff)).holds q &&
        (SmtTerm.op .bvule (word .retainedSlot) (.bv 0xffffffff)).holds q &&
        (SmtTerm.op .bvule (word .payoutSlot) (.bv 0xffffffff)).holds q) := rfl
  rw [hok, hholds .inputSlot (by decide), hholds .retainedSlot (by decide), hholds .payoutSlot (by decide)]
  simp [SlotsFit, querySlots, and_assoc]

/-! ### Postconditions -/

def Scalar.smt : Scalar → SmtValue
  | .word n => .bv n
  | .truth b => .bool b

/-- The term of an expression, next to its value. -/
structure Denotes (q : QueryEnv) (x : Expression) (v : Scalar) (o : Option Scalar) : Prop where
  term : x.term.eval q = some v.smt
  value : o = if x.checks.all (SmtTerm.holds q) then some v else none

lemma denotes_of {v : Scalar} (h : t.eval q = some v.smt) : Denotes q (.of t) v (some v) := ⟨h, rfl⟩

lemma Denotes.bind {x y z : Expression} {a b v : Scalar} {op : Op} (hx : Denotes q x a o)
    (hy : Denotes q y b o') (hterm : z.term.eval q = some v.smt) (extra : List QueryTerm)
    (hchecks : z.checks = x.checks ++ y.checks ++ extra)
    (hop : op.eval a b = if extra.all (SmtTerm.holds q) then some v else none) :
    Denotes q z v (o.bind fun a => o'.bind fun b => op.eval a b) := by
  refine ⟨hterm, ?_⟩
  rw [hx.value, hy.value, hchecks, all_append, all_append]
  cases x.checks.all (SmtTerm.holds q) with
  | false => rfl
  | true =>
    cases y.checks.all (SmtTerm.holds q) with
    | false => rfl
    | true => exact hop

lemma denotes_words {x y : Expression} {a b : Word64} (op : Op) (hx : Denotes q x (.word a) o)
    (hy : Denotes q y (.word b) o') :
    ∃ v, Denotes q (.binary op x y) v (o.bind fun a => o'.bind fun b => op.eval a b) ∧
      v.ty = if op.isArithmetic then .u64 else .bool := by
  have hl : x.term.eval q = some (.bv a) := hx.term
  have hr : y.term.eval q = some (.bv b) := hy.term
  have hno : ∀ l : List QueryTerm, l = l ++ [] := fun l => (append_nil l).symm
  cases op with
  | add =>
    have hcheck : (SmtTerm.op .bvule x.term (.bvnot y.term)).holds q = decide (a.toNat + b.toNat < U64) := by
      rw [holds_of_eval (eval_op_of hl (eval_bvnot hr) rfl)]
      exact decide_eq_decide.mpr (le_not_iff a b)
    refine ⟨.word (a + b), hx.bind hy (eval_op_of hl hr rfl) [_] rfl ?_, rfl⟩
    simp only [all_cons, all_nil, Bool.and_true, hcheck, decide_eq_true_eq, Op.eval, Op.onWords, Word64.checkedAdd]
    split_ifs <;> rfl
  | subtract =>
    have hcheck : (SmtTerm.op .bvuge x.term y.term).holds q = decide (b ≤ a) :=
      holds_of_eval (eval_op_of hl hr rfl)
    refine ⟨.word (a - b), hx.bind hy (eval_op_of hl hr rfl) [_] rfl ?_, rfl⟩
    simp only [all_cons, all_nil, Bool.and_true, hcheck, decide_eq_true_eq, Op.eval, Op.onWords, Word64.checkedSub]
    split_ifs <;> rfl
  | min =>
    refine ⟨.word (if a ≤ b then a else b), hx.bind hy ?_ [] (hno _) rfl, rfl⟩
    refine (eval_letPair hl hr).trans ?_
    exact eval_choose (p := a ≤ b) rfl rfl rfl
  | max =>
    refine ⟨.word (if b ≤ a then a else b), hx.bind hy ?_ [] (hno _) rfl, rfl⟩
    refine (eval_letPair hl hr).trans ?_
    exact eval_choose (p := b ≤ a) rfl rfl rfl
  | _ => exact ⟨.truth _, hx.bind hy (eval_op_of hl hr rfl) [] (hno _) rfl, rfl⟩

lemma denotes_truths {x y : Expression} {a b : Bool} {op : Op} (hop : op.isEquality = true)
    (hx : Denotes q x (.truth a) o) (hy : Denotes q y (.truth b) o') :
    ∃ v, Denotes q (.binary op x y) v (o.bind fun a => o'.bind fun b => op.eval a b) ∧ v.ty = .bool := by
  have hl : x.term.eval q = some (.bool a) := hx.term
  have hr : y.term.eval q = some (.bool b) := hy.term
  cases op with
  | equal | notEqual =>
    exact ⟨.truth _, hx.bind hy (eval_op_of hl hr rfl) [] (append_nil _).symm rfl, rfl⟩
  | _ => cases hop

lemma denotes_value {v : Value} (span : Span) (h : v.ty ≠ .address) :
    ∃ x s, Expression.ofValue span v = .ok x ∧ s.ty = v.ty ∧ Denotes q x s v.scalar := by
  cases v with
  | u64 n => exact ⟨_, .word n, rfl, rfl, denotes_of rfl⟩
  | bool b => exact ⟨_, .truth b, rfl, rfl, denotes_of rfl⟩
  | address text => exact absurd rfl h

lemma ofCall_builtin {n : String} {b : Operand × Ty} (h : builtin n = some b) : ofCall b.1 = true ∧ b.2 ≠ .address := by
  unfold builtin at h
  split at h
  case h_18 => cases h
  all_goals
    cases h
    exact ⟨rfl, by decide⟩

lemma denotes_builtin (hdeadline : c.beforeDeadline = decide (c.height < deadline)) (h : Reads old c q) {n : String}
    {b : Operand × Ty} (hb : builtin n = some b) :
    ∃ v, v.ty = b.2 ∧ Denotes q (.ofBuiltin deadline b) v (Scope.callValue ⟨c, deadline, some old⟩ n) := by
  obtain ⟨v, hv, hword⟩ : ∃ v, Scope.callValue ⟨c, deadline, some old⟩ n = some v ∧
      v.toWord = c.operand (initialRegisters old) 0 b.1 := callValue_operand hdeadline hb (initialRegisters old) 0
  have hty : v.ty = b.2 := by
    have hmap : (builtin n).map Prod.snd = (Scope.callValue ⟨c, deadline, some old⟩ n).map Scalar.ty :=
      builtin_callValue n
    rw [hb, hv] at hmap
    exact (Option.some.inj hmap).symm
  have hcontext := eval_context hdeadline h (initialRegisters old) 0 (ofCall_builtin hb).1
  rw [hv]
  refine ⟨v, hty, ?_⟩
  obtain ⟨operand, ty⟩ := b
  cases v with
  | word m =>
    obtain rfl : Ty.u64 = ty := hty
    refine denotes_of ?_
    rw [hcontext, ← hword]
    rfl
  | truth t =>
    obtain rfl : Ty.bool = ty := hty
    refine denotes_of (eval_op_of hcontext (b := .bv 1) rfl ?_)
    rw [← hword]
    cases t <;> rfl

/-- **The term of a postcondition denotes its value**, and its side conditions say that it has one. -/
theorem expression_eval {env : Environment} (henv : env.WellFormed)
    (hdeadline : c.beforeDeadline = decide (c.height < deadline)) (h : Reads old c q)
    (hR : ∀ r, (R r).eval q = some (.bv (regs r))) {e : Expr} {ty : Ty} (hty : env.ty true e = .ok ty)
    (haddress : ty ≠ .address) :
    ∃ x v, expression env R deadline e = .ok x ∧ v.ty = ty ∧
      Denotes q x v (eval env ⟨c, deadline, some old⟩ (stateOf regs) e) := by
  induction e generalizing ty with
  | value v span =>
    cases hty
    exact denotes_value span haddress
  | name n span =>
    simp only [Environment.ty, orElseThrow_eq_ok] at hty
    simp only [expression, eval]
    cases hvalue : env.values.lookup n with
    | some v =>
      rw [hvalue] at hty
      cases hty
      exact denotes_value span haddress
    | none =>
      rw [hvalue] at hty
      cases hstate : env.states.lookup n with
      | some r =>
        rw [hstate] at hty
        cases hty
        refine ⟨_, .word (regs r), rfl, rfl, ?_⟩
        have hread : readState (stateOf regs) r = some (regs r) := by
          rcases henv.states n r hstate with rfl | rfl <;> rfl
        simp only [hread, Option.map_some]
        exact denotes_of (hR r)
      | none =>
        rw [hstate] at hty
        obtain ⟨b, hb, rfl⟩ := Option.map_eq_some_iff.mp hty
        obtain ⟨v, hv, hdenotes⟩ := denotes_builtin hdeadline h hb
        exact ⟨_, v, by simp [hb, orElseThrow, bind, Except.bind, pure, Except.pure], hv, hdenotes⟩
  | old n span =>
    simp only [Environment.ty] at hty
    split_ifs at hty with hsome
    cases hty
    obtain ⟨r, hr⟩ := Option.isSome_iff_exists.mp hsome.2
    refine ⟨.of (word (.oldState r)), .word (initialRegisters old r), ?_, rfl, ?_⟩
    · simp [expression, hr, orElseThrow, bind, Except.bind, pure, Except.pure]
    · have hread : readState old r = some (initialRegisters old r) := by
        rcases henv.states n r hr with rfl | rfl <;> rfl
      have hmem : QueryWord.oldState r ∈ queryWords := by
        rcases henv.states n r hr with rfl | rfl <;> decide
      simp only [eval, hr, hread, Option.bind_eq_bind, Option.bind_some, Option.map_some]
      exact denotes_of (h.word _ hmem)
  | not e span ih =>
    simp only [Environment.ty, ok_rules] at hty
    obtain ⟨t, ht, rfl, rfl⟩ := hty
    obtain ⟨x, v, hx, hv, hdenotes⟩ := ih ht (by decide)
    cases v with
    | word n => cases hv
    | truth b =>
      refine ⟨{ x with term := .not x.term }, .truth !b, ?_, rfl, eval_not hdenotes.term, ?_⟩
      · simp [expression, hx, bind, Except.bind, pure, Except.pure]
      · simp only [eval, hdenotes.value]
        cases x.checks.all (SmtTerm.holds q) <;> rfl
  | binary op l r span ihl ihr =>
    obtain ⟨tl, tr, hl, hr, hcases⟩ := ty_binary hty
    have hoperands : tl ≠ .address ∧ tr ≠ .address := by
      rcases hcases with ⟨⟨rfl, rfl⟩, -⟩ | ⟨⟨-, rfl, rfl⟩, -⟩ <;> decide
    obtain ⟨x, a, hx, ha, hdenotesl⟩ := ihl hl hoperands.1
    obtain ⟨y, b, hy, hb, hdenotesr⟩ := ihr hr hoperands.2
    have hbinary : expression env R deadline (.binary op l r span) = .ok (.binary op x y) := by
      simp [expression, hx, hy, bind, Except.bind, pure, Except.pure]
    rcases hcases with ⟨⟨rfl, rfl⟩, rfl⟩ | ⟨⟨hop, rfl, rfl⟩, rfl⟩
    · cases a with
      | truth b => cases ha
      | word n =>
        cases b with
        | truth b => cases hb
        | word m =>
          obtain ⟨v, hdenotes, hv⟩ := denotes_words op hdenotesl hdenotesr
          exact ⟨_, v, hbinary, hv, hdenotes⟩
    · cases a with
      | word n => cases ha
      | truth n =>
        cases b with
        | word m => cases hb
        | truth m =>
          obtain ⟨v, hdenotes, hv⟩ := denotes_truths hop hdenotesl hdenotesr
          exact ⟨_, v, hbinary, hv, hdenotes⟩

lemma smtConditions_holds {env : Environment} (henv : env.WellFormed)
    (hdeadline : c.beforeDeadline = decide (c.height < deadline)) (h : Reads old c q)
    (hR : ∀ r, (R r).eval q = some (.bv (regs r))) :
    ∀ {ensures : List Expr}, (∀ e ∈ ensures, env.ty true e = .ok .bool) →
      ∃ conditions, smtConditions env R deadline ensures = .ok conditions ∧ (conditions.all (SmtTerm.holds q) = true ↔
          ∀ e ∈ ensures, eval env ⟨c, deadline, some old⟩ (stateOf regs) e = some (.truth true))
  | [], _ => ⟨[], rfl, by simp⟩
  | e :: ensures, hty => by
    obtain ⟨conditions, hconditions, hiff⟩ := smtConditions_holds henv hdeadline h hR
      fun e he => hty e (.tail _ he)
    obtain ⟨x, v, hx, hv, hdenotes⟩ := expression_eval henv hdeadline h hR (hty e mem_cons_self) (by decide)
    simp only [smtConditions, ok_rules] at hconditions
    obtain ⟨xs, hxs, rfl⟩ := hconditions
    refine ⟨_, by simp only [smtConditions, mapM_cons, hx, hxs]; rfl, ?_⟩
    cases v with
    | word n => cases hv
    | truth b =>
      have hterm : x.term.holds q = b := holds_of_eval hdenotes.term
      rw [forall_mem_cons, ← hiff, hdenotes.value]
      simp only [flatMap_cons, all_append, all_cons, all_nil, Bool.and_true, hterm]
      cases x.checks.all (SmtTerm.holds q) <;> cases b <;> simp

/-! ### Assignments of calls -/

/-- The assignment of an old state and a call; what is not declared is zero. -/
def queryEnv (old : StatePair) (c : Context) : QueryEnv
  | .word w => some (.bv (queryWord old c w))
  | .flag f => some (.bool (queryFlag c f))
  | _ => some (.bv 0)

lemma reads_queryEnv (old : StatePair) (c : Context) : Reads old c (queryEnv old c) :=
  ⟨fun _ _ => rfl, fun _ => rfl⟩

lemma wellSorted_queryEnv {script : List QueryCommand} (hbv : ∀ s, .declareBv s ∈ script → ∃ w, s = .word w)
    (hbool : ∀ s, .declareBool s ∈ script → ∃ f, s = .flag f) (old : StatePair) (c : Context) :
    WellSorted script (queryEnv old c) := by
  constructor
  · intro s hs
    obtain ⟨w, rfl⟩ := hbv s hs
    exact ⟨_, rfl⟩
  · intro s hs
    obtain ⟨f, rfl⟩ := hbool s hs
    exact ⟨_, rfl⟩

lemma slotsFit_queryEnv (old : StatePair) (c : Context) : SlotsFit (queryEnv old c) := by
  have hfit : ∀ n : BitVec 32, n.setWidth 64 ≤ (0xffffffff : Word64) := by
    intro n
    exact Nat.le_of_lt_succ n.isLt
  intro w hw
  cases w with
  | inputSlot => exact hfit c.inputSlot
  | retainedSlot => exact hfit c.retainedSlot
  | payoutSlot => exact hfit c.payoutSlot
  | _ => exact absurd hw (by simp [querySlots])

/-! ### The query of a contract -/

section
variable {A : AddressCodec} {contract : CompiledContract} {lowering : Lowering} {steps : List Instruction}

lemma decodeProgram_eq {program : Program} (h : program.toList = steps.map Instruction.toFields) :
    decodeProgram program = .ok steps := by
  rw [decodeProgram, h, mapM_eq_ok, forall₂_map_left_iff, forall₂_same]
  intro i _
  rw [Instruction.fromFields_toFields]
  rfl

lemma Represents.start (h : Reads old c q) : Represents old c 0 oldRegisters (initialRegisters old) q := by
  refine ⟨h, fun r => ?_, fun r => ?_⟩
  · cases r <;> trivial
  · cases r with
    | state0 | state1 => exact h.word _ (by decide)
    | scratch0 | scratch1 => rfl

lemma smtExecution_run (steps : List Instruction) (hdeadline : c.beforeDeadline = decide (c.height < deadline)) (h : Reads old c q)
    (hfit : SlotsFit q) :
    match runInstructions c 0 steps (initialRegisters old) with
    | .ok regs => (runCommands { env := q, ok := true } (smtExecution deadline steps).1).ok = true ∧
        Represents old c steps.length (smtExecution deadline steps).2 regs
          (runCommands { env := q, ok := true } (smtExecution deadline steps).1).env
    | .error _ => (runCommands { env := q, ok := true } (smtExecution deadline steps).1).ok = false := by
  have hslots : ∀ w ∈ querySlots, q (.word w) = some (.bv (wordOf q w)) := by
    intro w hw
    have hword := h.word w (by revert w; decide)
    simp only [wordOf, hword]
  obtain ⟨henv, hok⟩ := runCommands_head hslots
  have hrun := smtProgram_run hdeadline steps
    (henv.symm ▸ Represents.start h) (hok.mpr hfit)
  rw [Nat.zero_add] at hrun
  exact hrun

lemma mem_smtProgram {x : QueryCommand} :
    ∀ {steps : List Instruction} {index : ℕ} {R : Register → QueryTerm}, x ∈ (smtProgram deadline index steps R).1 →
      (∃ t, x = .assert t) ∨ ∃ s t, x = .define s t
  | [], _, _, h => by cases h
  | i :: steps, index, R, h => by
    simp only [smtProgram, mem_append] at h
    rcases h with h | h
    · simp only [smtStep, mem_append, mem_singleton, mem_map] at h
      rcases h with (rfl | ⟨t, -, rfl⟩) | rfl
      · exact .inl ⟨_, rfl⟩
      · exact .inl ⟨_, rfl⟩
      · exact .inr ⟨_, _, rfl⟩
    · exact mem_smtProgram h

lemma mem_head_of_declares {x : QueryCommand} {conditions : List QueryTerm}
    (h : x ∈ (smtExecution deadline steps).1 ++ questions conditions)
    (hx : ∃ s, x = .declareBv s ∨ x = .declareBool s) : x ∈ smtHead := by
  obtain ⟨s, hs⟩ := hx
  simp only [smtExecution, append_assoc, mem_append] at h
  rcases h with h | h | h
  · exact h
  · rcases mem_smtProgram h with ⟨t, rfl⟩ | ⟨s, t, rfl⟩ <;> simp at hs
  · rcases hs with rfl | rfl <;> simp [questions] at h

lemma wellSorted_query (conditions : List QueryTerm) (old : StatePair) (c : Context) :
    WellSorted ((smtExecution deadline steps).1 ++ questions conditions) (queryEnv old c) := by
  refine wellSorted_queryEnv (fun s hs => ?_) (fun s hs => ?_) old c
  · have hhead := mem_head_of_declares hs ⟨s, .inl rfl⟩
    simp [smtHead] at hhead
    obtain ⟨w, -, rfl⟩ := hhead
    exact ⟨w, rfl⟩
  · have hhead := mem_head_of_declares hs ⟨s, .inr rfl⟩
    simp [smtHead] at hhead
    obtain ⟨f, -, rfl⟩ := hhead
    exact ⟨f, rfl⟩

lemma verdicts_query (q : QueryEnv) (conditions : List QueryTerm) :
    verdicts { env := q, ok := true } ((smtExecution deadline steps).1 ++ questions conditions) =
      [(runCommands { env := q, ok := true } (smtExecution deadline steps).1).ok,
        (runCommands { env := q, ok := true } (smtExecution deadline steps).1).ok &&
          !conditions.all (SmtTerm.holds (runCommands { env := q, ok := true } (smtExecution deadline steps).1).env)] := by
  rw [verdicts_append, verdicts_of_quiet]
  · rfl
  · intro h
    simp only [smtExecution, mem_append] at h
    rcases h with h | h
    · revert h
      simp [smtHead]
    · rcases mem_smtProgram h with ⟨t, h⟩ | ⟨s, t, h⟩ <;> cases h

lemma settled_smtProgram (deadline : Word64) : ∀ (steps : List Instruction) {index : ℕ} {R : Register → QueryTerm},
    (∀ r, Settled index (R r)) → ∀ r, Settled (index + steps.length) ((smtProgram deadline index steps R).2 r)
  | [], _, _, h, r => h r
  | i :: steps, index, R, h, r => by
    have hstep : ∀ r, Settled (index + 1) ((smtStep deadline index i R).2 r) := by
      intro r
      by_cases hr : r = i.destination
      · subst hr
        simp only [smtStep, update_self]
        exact Nat.lt_succ_self index
      · simp only [smtStep, update_of_ne hr]
        exact (h r).mono
    have hrest := settled_smtProgram deadline steps hstep r
    rwa [Nat.add_right_comm] at hrest

lemma Settled.eval_queryEnv {index : ℕ} {t : QueryTerm} (h : Settled index t) (old : StatePair) (c : Context) :
    ∃ n, t.eval (queryEnv old c) = some (.bv n) := by
  unfold Settled at h
  split at h
  case h_4 => exact h.elim
  all_goals exact ⟨_, rfl⟩

lemma smt_eq_ok (h : Compiled A contract lowering) (hensures : contract.source.ensures ≠ []) :
    ∃ steps conditions, contract.opening.program.toList = steps.map Instruction.toFields ∧
      smtConditions contract.env (smtExecution contract.deadline steps).2 contract.deadline contract.source.ensures =
        .ok conditions ∧
      smt contract = .ok ((smtExecution contract.deadline steps).1 ++ questions conditions) := by
  have hprogram := padProgram_toList lowering.fits
  rw [← h.program] at hprogram
  generalize lowering.program ++ replicate (PROGRAM_STEPS - lowering.program.length) Instruction.empty = steps
    at hprogram
  -- any assignment shows that the postconditions have terms
  let c : Context := contextOf contract.deadline fun _ => none
  have hsettled := settled_smtProgram contract.deadline steps
    (Represents.start (reads_queryEnv (0, 0) c)).settled
  choose regs hregs using fun r => (hsettled r).eval_queryEnv (0, 0) c
  obtain ⟨conditions, hconditions, -⟩ :=
    smtConditions_holds h.wellFormed (c := c) rfl (reads_queryEnv (0, 0) c) hregs h.ensures
  refine ⟨steps, conditions, hprogram, hconditions, ?_⟩
  rw [smt, require_bind hensures, bind_of_ok (decodeProgram_eq hprogram)]
  exact bind_of_ok hconditions

/-- A successful execution, at a call whose deadline flag is that of its height. -/
def Succeeds (contract : CompiledContract) (old : StatePair) (c : Context) (s : StatePair) : Prop :=
  c.beforeDeadline = decide (c.height < contract.deadline) ∧
    execute contract.opening.program (packState old) c = .ok (packState s)

/-- All postconditions are true, which includes that nothing overflows in them. -/
def Satisfies (contract : CompiledContract) (old : StatePair) (c : Context) (s : StatePair) : Prop :=
  ∀ e ∈ contract.source.ensures, eval contract.env ⟨c, contract.deadline, some old⟩ s e = some (.truth true)

/-- The register terms at the first question, under an assignment. -/
def finalRegister (contract : CompiledContract) (q : QueryEnv) (r : Register) : Option SmtValue :=
  match decodeProgram contract.opening.program with
  | .ok steps =>
    ((smtExecution contract.deadline steps).2 r).eval
      (runCommands { env := q, ok := true } (smtExecution contract.deadline steps).1).env
  | .error _ => none

lemma query_run (hprogram : contract.opening.program.toList = steps.map Instruction.toFields)
    (hdeadline : c.beforeDeadline = decide (c.height < contract.deadline)) (h : Reads old c q) (hfit : SlotsFit q) :
    ((runCommands { env := q, ok := true } (smtExecution contract.deadline steps).1).ok = true ↔
      ∃ s, Succeeds contract old c s) ∧
    ∀ s, Succeeds contract old c s → ∃ regs, stateOf regs = s ∧
      Represents old c steps.length (smtExecution contract.deadline steps).2 regs
        (runCommands { env := q, ok := true } (smtExecution contract.deadline steps).1).env := by
  have hexecute := execute_eq hprogram (packState old) c
  rw [unpackState_packState] at hexecute
  have hrun := smtExecution_run steps hdeadline h hfit
  unfold Succeeds
  cases hresult : runInstructions c 0 steps (initialRegisters old) with
  | error e =>
    rw [hresult] at hrun hexecute
    simp only [hexecute, Except.map]
    exact ⟨by simp [hrun], by simp⟩
  | ok regs =>
    rw [hresult] at hrun hexecute
    simp only [hexecute, Except.map]
    refine ⟨⟨fun _ => ⟨stateOf regs, hdeadline, rfl⟩, fun _ => hrun.1⟩, ?_⟩
    rintro s ⟨-, hs⟩
    have hpack := congrArg unpackState (Except.ok.inj hs)
    rw [unpackState_packState, unpackState_packState] at hpack
    exact ⟨regs, hpack, hrun.2⟩

lemma query_unfit {script : List QueryCommand} (hscript : ∀ x ∈ smtHead, x ∈ script) (hsorted : WellSorted script q)
    (hok : (runCommands { env := q, ok := true } (smtExecution deadline steps).1).ok = true) : SlotsFit q := by
  have hslots : ∀ w ∈ querySlots, q (.word w) = some (.bv (wordOf q w)) := by
    intro w hw
    have hmem : w ∈ queryWords := by revert w; decide
    obtain ⟨n, hn⟩ := hsorted.bv (.word w) (hscript _ (by simp [smtHead, hmem]))
    simp only [wordOf, hn]
  by_contra hfit
  have hfailed : (runCommands { env := q, ok := true } smtHead).ok = false := by
    rw [← Bool.not_eq_true, (runCommands_head hslots).2]
    exact hfit
  simp only [smtExecution, runCommands_append] at hok
  rw [runCommands_failed hfailed] at hok
  cases hok

lemma smtHead_subset (deadline : Word64) (steps : List Instruction) (conditions : List QueryTerm) :
    ∀ x ∈ smtHead, x ∈ (smtExecution deadline steps).1 ++ questions conditions := by
  intro x hx
  simp [smtExecution, hx]

section
variable (hprogram : contract.opening.program.toList = steps.map Instruction.toFields)
include hprogram

/-- Successful executions are the assignments under which the assertions before the first question hold. -/
theorem exists_assignment (conditions : List QueryTerm) {P : QueryEnv → Prop} {Q : StatePair → Context → StatePair → Prop}
    (hiff : ∀ {old c s q}, Reads old c q → SlotsFit q → Succeeds contract old c s → (P q ↔ Q old c s)) :
    (∃ q, WellSorted ((smtExecution contract.deadline steps).1 ++ questions conditions) q ∧
        (runCommands { env := q, ok := true } (smtExecution contract.deadline steps).1).ok = true ∧ P q) ↔
      ∃ old c s, Succeeds contract old c s ∧ Q old c s := by
  constructor
  · rintro ⟨q, hsorted, hok, hq⟩
    have hhead := smtHead_subset contract.deadline steps conditions
    have hfit := query_unfit hhead hsorted hok
    have hreads := reads_contextOf contract.deadline hhead hsorted hfit
    obtain ⟨s, hs⟩ := (query_run hprogram rfl hreads hfit).1.mp hok
    exact ⟨_, _, s, hs, (hiff hreads hfit hs).mp hq⟩
  · rintro ⟨old, c, s, hs, hq⟩
    have hreads := reads_queryEnv old c
    have hfit := slotsFit_queryEnv old c
    have hok := (query_run hprogram hs.1 hreads hfit).1.mpr ⟨s, hs⟩
    exact ⟨queryEnv old c, wellSorted_query conditions old c, hok, (hiff hreads hfit hs).mpr hq⟩

lemma satisfiable_first (conditions : List QueryTerm) :
    Satisfiable ((smtExecution contract.deadline steps).1 ++ questions conditions) 0 ↔
      ∃ old c s, Succeeds contract old c s := by
  unfold Satisfiable
  simp only [verdicts_query, getElem?_cons_zero, Option.some.injEq]
  simpa only [and_true] using exists_assignment hprogram conditions (P := fun _ => True) (Q := fun _ _ _ => True)
    fun _ _ _ => Iff.rfl

/-- The second question is whether some successful execution violates a postcondition. -/
theorem satisfiable_second (h : Compiled A contract lowering) {conditions : List QueryTerm}
    (hconditions : smtConditions contract.env (smtExecution contract.deadline steps).2 contract.deadline
      contract.source.ensures = .ok conditions) :
    Satisfiable ((smtExecution contract.deadline steps).1 ++ questions conditions) 1 ↔
      ∃ old c s, Succeeds contract old c s ∧ ¬Satisfies contract old c s := by
  unfold Satisfiable
  simp only [verdicts_query, getElem?_cons_succ, getElem?_cons_zero, Option.some.injEq, Bool.and_eq_true,
    Bool.not_eq_true']
  refine exists_assignment hprogram conditions ?_
  intro old c s q hreads hfit hs
  obtain ⟨regs, rfl, hrepresents⟩ := (query_run hprogram hs.1 hreads hfit).2 s hs
  obtain ⟨conditions', hconditions', hiff⟩ :=
    smtConditions_holds h.wellFormed hs.1 hrepresents.reads hrepresents.value h.ensures
  obtain rfl : conditions = conditions' := Except.ok.inj (hconditions.symm.trans hconditions')
  rw [← Bool.not_eq_true, hiff]
  rfl

end

lemma verdict_eq_verified {script : List QueryCommand} {answers : List SmtAnswer}
    (h : CorrectAnswers script answers) (hquestions : script.countP SmtCommand.isCheckSat = 2) :
    verdict answers = .ok .verified ↔ Satisfiable script 0 ∧ ¬Satisfiable script 1 := by
  have hlength : answers.length = 2 := h.length.trans hquestions
  obtain ⟨a, b, rfl⟩ := length_eq_two.mp hlength
  rw [← h.sat 0 (by simp), ← h.unsat 1 (by simp)]
  cases a <;> cases b <;> simp [verdict]

lemma countP_query (conditions : List QueryTerm) :
    ((smtExecution deadline steps).1 ++ questions conditions).countP SmtCommand.isCheckSat = 2 := by
  rw [← length_verdicts { env := fun _ => none, ok := true }, verdicts_query]
  rfl

end

/-- **The query is exact**: its assertions hold exactly when the program succeeds on the state and the call of the
assignment, and its terms denote the new state.  With a correct solver a contract is verified exactly when some
execution succeeds and all that succeed satisfy the postconditions, without overflow. -/
theorem smt_exact {A : AddressCodec} {parse : String → Except Error Source} {text : String} {parameters : Json}
    {contract : CompiledContract} (h : compile A parse text parameters = .ok contract)
    (hensures : contract.source.ensures ≠ []) :
    ∃ script, smt contract = .ok script ∧ (∀ q, WellSorted script q → SlotsFit q →
        ((verdicts { env := q, ok := true } script)[0]? = some true ↔
          ∃ s, execute contract.opening.program (packState (oldOf q)) (contextOf contract.deadline q) = .ok s) ∧
        ∀ s, execute contract.opening.program (packState (oldOf q)) (contextOf contract.deadline q) =
            .ok (packState s) →
          finalRegister contract q .state0 = some (.bv s.1) ∧ finalRegister contract q .state1 = some (.bv s.2)) ∧
      ∀ answers, CorrectAnswers script answers → (verdict answers = .ok .verified ↔
          (∃ old c s, Succeeds contract old c s) ∧
            ∀ old c s, Succeeds contract old c s → Satisfies contract old c s) := by
  obtain ⟨-, -, lowering, hcompiled⟩ := compile_eq_ok h
  obtain ⟨steps, conditions, hprogram, hconditions, hscript⟩ := smt_eq_ok hcompiled hensures
  refine ⟨_, hscript, ?_, ?_⟩
  · intro q hsorted hfit
    have hreads := reads_contextOf contract.deadline
      (smtHead_subset contract.deadline steps conditions) hsorted hfit
    obtain ⟨hfirst, hfinal⟩ := query_run hprogram rfl hreads hfit
    refine ⟨?_, ?_⟩
    · rw [verdicts_query, getElem?_cons_zero, Option.some.injEq, hfirst]
      constructor
      · rintro ⟨s, -, hs⟩
        exact ⟨_, hs⟩
      · rintro ⟨s, hs⟩
        exact ⟨unpackState s, rfl, by rw [packState_unpackState, hs]⟩
    · intro s hs
      obtain ⟨regs, rfl, hrepresents⟩ := hfinal s ⟨rfl, hs⟩
      unfold finalRegister
      rw [decodeProgram_eq hprogram]
      exact ⟨hrepresents.value .state0, hrepresents.value .state1⟩
  · intro answers hanswers
    rw [verdict_eq_verified hanswers (countP_query conditions), satisfiable_first hprogram,
      satisfiable_second hprogram hcompiled hconditions]
    simp only [not_exists, not_and, not_not]

theorem compileMeter_query : ∃ contract script, compileMeter = .ok contract ∧ smt contract = .ok script ∧
    (∀ q, WellSorted script q → SlotsFit q → ((verdicts { env := q, ok := true } script)[0]? = some true ↔
        ∃ s, execute contract.opening.program (packState (oldOf q)) (contextOf contract.deadline q) = .ok s) ∧
      ∀ s, execute contract.opening.program (packState (oldOf q)) (contextOf contract.deadline q) = .ok (packState s) →
        finalRegister contract q .state0 = some (.bv s.1) ∧ finalRegister contract q .state1 = some (.bv s.2)) ∧
    ∀ answers, CorrectAnswers script answers → (verdict answers = .ok .verified ↔
      (∃ old c s, Succeeds contract old c s) ∧ ∀ old c s, Succeeds contract old c s → Satisfies contract old c s) := by
  have hlength : (compileMeter.map fun contract => contract.source.ensures.length) = .ok 1 := by decide +kernel
  cases hcompile : compileMeter with
  | error e =>
    rw [hcompile] at hlength
    cases hlength
  | ok contract =>
    rw [hcompile] at hlength
    have hensures : contract.source.ensures ≠ [] := by
      intro hnil
      have hone : contract.source.ensures.length = 1 := Except.ok.inj hlength
      rw [hnil] at hone
      cases hone
    obtain ⟨script, hscript⟩ := smt_exact hcompile hensures
    exact ⟨contract, script, rfl, hscript⟩

end Noid.Pruv
