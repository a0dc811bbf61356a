import Noid.Lib.Realises
import Noid.Pruv.Lowering
import Noid.Pruv.Semantics

/-! # Lowered code computes what the contract means

Under an active guard the code of an expression leaves its value in the operand that was returned for it and changes no
register in use; under an inactive one it does nothing.  Guards stay truth values because their registers are in use while
anything they guard is lowered. -/

namespace Noid.Pruv

open Noid.Lib Noid.Tx List Function Word64

variable {c : Context} {p : Predicate} {st st' : Lowering} {regs regs' : Registers}

/-! ### Registers in use -/

/-- The registers that lowered code must not lose; the state registers are among them. -/
def Lowering.used (st : Lowering) : Register → Bool
  | .scratch0 => st.scratch0
  | .scratch1 => st.scratch1
  | _ => true

def IsScratch (r : Register) : Prop := r = .scratch0 ∨ r = .scratch1

/-- No register in use changes, up to a target. -/
def Frame (st : Lowering) (target : Option Register) (regs regs' : Registers) : Prop :=
  ∀ r, st.used r = true → target ≠ some r → regs' r = regs r

variable {target : Option Register} {r : Register} {opcode : Opcode} {left right : Word}
  {span : Span} {st1 : Lowering}

lemma Frame.refl : Frame st target regs regs := fun _ _ _ => rfl

lemma Frame.update {n : Word64}
    (h : target = some r ∨ st.used r = false) : Frame st target regs (update regs r n) := by
  intro r' hused htarget
  refine update_of_ne ?_ _ _
  rintro rfl
  rcases h with h | h
  · exact htarget h
  · rw [h] at hused
    cases hused

def stateOf (regs : Registers) : StatePair := (regs .state0, regs .state1)

lemma Frame.stateOf (h : Frame st none regs regs') : stateOf regs' = stateOf regs :=
  Prod.ext (h .state0 rfl (by simp)) (h .state1 rfl (by simp))

lemma Frame.stateOf_of_isScratch (h : Frame st (some r) regs regs') (hr : IsScratch r) :
    Noid.Pruv.stateOf regs' = Noid.Pruv.stateOf regs := by
  rcases hr with rfl | rfl
  · exact Prod.ext (h .state0 rfl (by simp)) (h .state1 rfl (by simp))
  · exact Prod.ext (h .state0 rfl (by simp)) (h .state1 rfl (by simp))

def Word.value (c : Context) (regs : Registers) (w : Word) : Word64 := c.operand regs w.immediate w.operand

/-- An operand that reads no register but those in use. -/
structure Held (st : Lowering) (w : Word) : Prop where
  reads : ∀ r, w.operand = registerOperand r → st.used r = true
  temporary : ∀ r, w.temporary = some r → w.operand = registerOperand r ∧ IsScratch r

lemma Held.value_eq {w : Word} (h : Held st w) (hframe : Frame st none regs regs') :
    w.value c regs' = w.value c regs := by
  have hreg : ∀ r, w.operand = registerOperand r → regs' r = regs r := fun r hr =>
    hframe r (h.reads r hr) (by simp)
  unfold Word.value
  cases ho : w.operand with
  | state0 => exact hreg .state0 ho
  | state1 => exact hreg .state1 ho
  | scratch0 => exact hreg .scratch0 ho
  | scratch1 => exact hreg .scratch1 ho
  | _ => rfl

lemma Word.operand_eq {w : Word} {n : Word64} (h : w.operand = .immediate → n = w.immediate) :
    c.operand regs n w.operand = w.value c regs := by
  unfold Word.value
  cases ho : w.operand with
  | immediate => rw [h ho]
  | _ => rfl

lemma Word.value_literal (n : Word64) : (Word.literal n).value c regs = n := by
  unfold Word.value Word.literal
  split_ifs with h0 h1
  · rw [h0]
    rfl
  · rw [h1]
    rfl
  · rfl

lemma Word.value_register (r : Register) (b : Bool) : (Word.register r b).value c regs = regs r := by
  cases r <;> rfl

lemma registerOperand_injective {r' : Register} (h : registerOperand r = registerOperand r') : r = r' := by
  cases r <;> cases r' <;> first | rfl | cases h

lemma held_literal (n : Word64) : Held st (.literal n) := by
  refine ⟨?_, by simp [Word.literal]⟩
  intro r hr
  unfold Word.literal at hr
  split_ifs at hr <;> cases r <;> cases hr

/-! ### Emitted instructions -/

/-- The errors that a contract can run into. -/
def Proper (e : ProgramError) : Prop := ∀ step, e ≠ .nonBooleanPredicate step

/-- An emitted instruction under its guard: it does nothing, or applies its opcode to its operands. -/
structure Emitted (st : Lowering) (opcode : Opcode) (destination : Register) (left right : Word) (p : Predicate)
    (st' : Lowering) (i : Instruction) : Prop where
  program : st'.program = st.program ++ [i]
  used : ∀ r, st'.used r = st.used r
  predicate : i.predicate = p
  run : ∀ {c : Context} {regs : Registers} (step : ℕ), p.status c regs = some true → i.run c step regs = (do
      let value ← opcode.apply step (regs destination) (left.value c regs) (right.value c regs)
      return update regs destination value)

lemma emit_ok {destination : Register} (h : st.emit opcode destination left right p span = .ok st') :
    ∃ i, Emitted st opcode destination left right p st' i := by
  by_cases hfull : st.program.length = PROGRAM_STEPS
  · rw [Lowering.emit, dif_pos hfull] at h
    cases h
  rw [Lowering.emit, dif_neg hfull] at h
  simp only [ok_rules] at h
  obtain ⟨himmediate, rfl⟩ := h
  set n := if left.operand = .immediate then left.immediate
    else if right.operand = .immediate then right.immediate else 0
  refine ⟨_, rfl, fun r => by cases r <;> rfl, rfl, ?_⟩
  intro c regs step hactive
  have hright : right.operand = .immediate → n = right.immediate := by
    intro hr
    by_cases hl : left.operand = .immediate
    · exact (if_pos hl).trans (not_not.mp fun hne => himmediate ⟨hl, hr, hne⟩)
    · exact (if_neg hl).trans (if_pos hr)
  rw [run_active hactive, Word.operand_eq fun hl => if_pos hl, Word.operand_eq hright]

/-! ### Scratch registers -/

lemma isScratch_of_unused (h : st.used r = false) : IsScratch r := by
  cases r with
  | state0 => cases h
  | state1 => cases h
  | scratch0 => exact .inl rfl
  | scratch1 => exact .inr rfl

lemma allocate_ok (h : st.allocate span = .ok (r, st')) :
    st.used r = false ∧ st'.program = st.program ∧ ∀ r', st'.used r' = (st.used r' || decide (r = r')) := by
  unfold Lowering.allocate at h
  split_ifs at h with h0 h1
  · cases h
    exact ⟨h0, rfl, fun r' => by cases r' <;> simp [Lowering.used]⟩
  · cases h
    exact ⟨h1, rfl, fun r' => by cases r' <;> simp [Lowering.used]⟩

lemma used_release (h : IsScratch r) (r' : Register) :
    (st.release r).used r' = (st.used r' && decide (r ≠ r')) := by
  rcases h with rfl | rfl <;> cases r' <;> simp [Lowering.used, Lowering.release]

lemma program_release (r : Register) : (st.release r).program = st.program := by cases r <;> rfl

lemma releaseAll (keep : Register → Prop) [DecidablePred keep] :
    ∀ {l : List Register} {st : Lowering}, (∀ r ∈ l, IsScratch r) →
      (l.foldl (fun st r => if keep r then st else st.release r) st).program = st.program ∧
        ∀ r, (l.foldl (fun st r => if keep r then st else st.release r) st).used r =
          (st.used r && !(decide (r ∈ l) && !decide (keep r)))
  | [], _, _ => ⟨rfl, fun r => by simp⟩
  | x :: l, st, h => by
    obtain ⟨hprogram, hused⟩ := releaseAll keep (l := l)
      fun r hr => h r (.tail _ hr)
    rw [foldl_cons]
    refine ⟨?_, fun r => ?_⟩
    · rw [hprogram]
      split_ifs
      · rfl
      · exact program_release x
    · rw [hused]
      split_ifs with hx
      · by_cases hr : r = x
        · subst hr
          simp [hx]
        · simp [hr]
      · rw [used_release (h x mem_cons_self)]
        by_cases hr : r = x
        · subst hr
          simp [hx]
        · simp [hr, Ne.symm hr]

/-- The scratch registers after two operands were lowered. -/
structure Operands (st : Lowering) (left right : Word) (st1 : Lowering) : Prop where
  used : ∀ r, st1.used r = (st.used r || (decide (left.temporary = some r) || decide (right.temporary = some r)))
  left : ∀ r, left.temporary = some r → st.used r = false
  right : ∀ r, right.temporary = some r → st.used r = false

lemma Operands.swap (h : Operands st left right st1) :
    Operands st right left st1 :=
  ⟨fun r => by rw [h.used, Bool.or_comm (decide (left.temporary = some r))], h.right, h.left⟩

lemma Operands.isScratch (h : Operands st left right st1) :
    ∀ r ∈ left.temporary.toList ++ right.temporary.toList, IsScratch r := by
  intro r hr
  rcases mem_append.mp hr with hr | hr
  · exact isScratch_of_unused (h.left r (Option.mem_toList.mp hr))
  · exact isScratch_of_unused (h.right r (Option.mem_toList.mp hr))

/-! ### Operations -/

def compute (a b : Word64) : Opcode → Option Word64
  | .move => some a
  | .add => a.checkedAdd b
  | .subtract => a.checkedSub b
  | .min => some (if a ≤ b then a else b)
  | .max => some (if b ≤ a then a else b)
  | .lessThan => some (.ofBool (decide (a < b)))
  | .equal => some (.ofBool (decide (a = b)))
  | _ => none

/-- The operations that write what they compute. -/
def IsComputing : Opcode → Prop
  | .keep | .assertEqual | .assertLessOrEqual => False
  | _ => True

lemma apply_compute (h : IsComputing opcode) (step : ℕ) (current a b : Word64) :
    Realises Proper (fun n m => m = n) (compute a b opcode) (opcode.apply step current a b) := by
  cases opcode with
  | keep => cases h
  | assertEqual => cases h
  | assertLessOrEqual => cases h
  | add =>
    unfold compute Opcode.apply
    cases a.checkedAdd b with
    | none => exact fun _ => by simp
    | some n => exact rfl
  | subtract =>
    unfold compute Opcode.apply
    cases a.checkedSub b with
    | none => exact fun _ => by simp
    | some n => exact rfl
  | _ => exact rfl

lemma destination_ok {st2 : Lowering} {d : Register} (h : st1.destination left right target span = .ok (d, st2)) (hst : Operands st left right st1)
    (htarget : ∀ t, target = some t → st.used t = true) :
    st2.program = st1.program ∧ (target = some d ∨ target = none ∧ st.used d = false) ∧
      ∀ r, (st2.used r && !(decide (r ∈ left.temporary.toList ++ right.temporary.toList) && !decide (r = d))) =
        (st.used r || decide (target = none ∧ d = r)) := by
  have hused := hst.used
  unfold Lowering.destination at h
  cases htarget' : target with
  | some t =>
    rw [htarget'] at h
    cases h
    refine ⟨rfl, .inl rfl, fun r => ?_⟩
    have hd := htarget d htarget'
    by_cases hr : left.temporary = some r ∨ right.temporary = some r
    · have hfree : st.used r = false := hr.elim (hst.left r) (hst.right r)
      have hne : r ≠ d := by
        rintro rfl
        rw [hfree] at hd
        cases hd
      simp [hused, hfree, hr, hne]
    · obtain ⟨hl, hr⟩ := not_or.mp hr
      simp [hused, hl, hr]
  | none =>
    rw [htarget', Option.none_or] at h
    cases htemp : left.temporary.or right.temporary with
    | some t =>
      rw [htemp] at h
      cases h
      have hd : left.temporary = some d ∨ right.temporary = some d := by
        rcases Option.or_eq_some_iff.mp htemp with h | h
        · exact .inl h
        · exact .inr h.2
      refine ⟨rfl, .inr ⟨rfl, hd.elim (hst.left d) (hst.right d)⟩, fun r => ?_⟩
      by_cases hrd : r = d
      · subst hrd
        simp [hused, hd]
      · by_cases hr : left.temporary = some r ∨ right.temporary = some r
        · have hfree : st.used r = false := hr.elim (hst.left r) (hst.right r)
          simp [hused, hfree, hr, hrd, Ne.symm hrd]
        · obtain ⟨hl, hr⟩ := not_or.mp hr
          simp [hused, hl, hr, Ne.symm hrd]
    | none =>
      rw [htemp] at h
      obtain ⟨hl, hr⟩ := Option.or_eq_none_iff.mp htemp
      obtain ⟨hfree, hprogram, hused2⟩ := allocate_ok h
      have hfree' : st.used d = false := by
        rw [hused, hl, hr] at hfree
        simpa using hfree
      refine ⟨hprogram, .inr ⟨rfl, hfree'⟩, fun r => ?_⟩
      simp [hused2, hused, hl, hr]

lemma negate_ok {invert : Bool} {d : Register} (h : st.negate invert d p span = .ok st') :
    ∃ code, st'.program = st.program ++ code ∧ (∀ i ∈ code, i.predicate = p) ∧ (∀ r, st'.used r = st.used r) ∧
      ∀ {c : Context} {regs : Registers} (step : ℕ), p.status c regs = some true → runInstructions c step code regs =
          .ok (update regs d (if invert then .ofBool (decide (regs d = 0)) else regs d)) := by
  unfold Lowering.negate at h
  split_ifs at h with hinvert
  · obtain ⟨i, hi⟩ := emit_ok h
    refine ⟨[i], hi.program, by simpa using hi.predicate, hi.used, ?_⟩
    intro c regs step hactive
    rw [runInstructions_cons, hi.run step hactive, Word.value_register, Word.value_literal]
    simp only [hinvert, if_true]
    rfl
  · cases h
    refine ⟨[], by simp, by simp, fun _ => rfl, ?_⟩
    intro c regs step hactive
    rw [if_neg hinvert, update_eq_self]
    rfl

/-- The tail of an operation writes its result to a register that is free or the target. -/
theorem finish_ok {w : Word} {invert : Bool}
        (h : st1.finish opcode left right invert target p span = .ok (w, st')) (hop : IsComputing opcode)
    (hst : Operands st left right st1) (htarget : ∀ t, target = some t → st.used t = true) :
    ∃ d code, st'.program = st1.program ++ code ∧ (∀ i ∈ code, i.predicate = p) ∧
      w = .register d target.isNone ∧ (target = some d ∨ target = none ∧ st.used d = false) ∧
      (∀ r, st'.used r = (st.used r || decide (target = none ∧ d = r))) ∧
      ∀ {c : Context} {regs : Registers} (step : ℕ), p.status c regs = some true → p.reads ≠ some d →
        Realises Proper (fun n regs' => regs' = update regs d n)
          ((compute (left.value c regs) (right.value c regs) opcode).map
            fun n => if invert then .ofBool (decide (n = 0)) else n)
          (runInstructions c step code regs) := by
  simp only [Lowering.finish, ok_rules, Prod.exists, Prod.mk.injEq] at h
  obtain ⟨d, st2, hd, st3, hemit, st4, hnegate, rfl, rfl⟩ := h
  obtain ⟨i, hi⟩ := emit_ok hemit
  obtain ⟨hprogram, hused⟩ := releaseAll (· = d) hst.isScratch
  obtain ⟨hprogram2, hd', hused2⟩ := destination_ok hd hst htarget
  obtain ⟨code, hprogram4, hcode, hused4, hrun⟩ := negate_ok hnegate
  refine ⟨d, i :: code, ?_, ?_, rfl, hd', ?_, ?_⟩
  · rw [hprogram4, hprogram, hi.program, hprogram2]
    simp
  · exact forall_mem_cons.mpr ⟨hi.predicate, hcode⟩
  · intro r
    rw [hused4, hused, hi.used, hused2]
  · intro c regs step hactive hreads
    rw [runInstructions_cons, hi.run step hactive, bind_assoc, Option.map_eq_bind]
    refine (apply_compute hop step (regs d) (left.value c regs) (right.value c regs)).bind ?_
    rintro n m - rfl
    have hactive' : p.status c (update regs d m) = some true := by
      rw [Predicate.status_congr, hactive]
      intro r hr
      refine update_of_ne ?_ _ _
      rintro rfl
      exact hreads hr
    rw [pure_bind, hrun (step + 1) hactive', update_self, update_idem]
    exact rfl

/-! ### Expressions -/

/-- What an operator is lowered to computes. -/
def Op.result (op : Op) (a b : Word64) : Option Word64 :=
  (if op.lower.2.1 then compute b a op.lower.1 else compute a b op.lower.1).map
    fun n => if op.lower.2.2 then .ofBool (decide (n = 0)) else n

lemma ofBool_eq_zero (b : Bool) : decide (Word64.ofBool b = 0) = !b := by cases b <;> rfl

lemma ofBool_inj (a b : Bool) : decide (Word64.ofBool a = Word64.ofBool b) = (a == b) := by
  cases a <;> cases b <;> rfl

lemma not_decide_lt (a b : Word64) : (!decide (a < b)) = decide (b ≤ a) := by
  rw [← decide_not]
  exact decide_eq_decide.mpr BitVec.not_lt

/-- The values that an operator is typed for. -/
def Op.Accepts (op : Op) (a b : Scalar) : Prop :=
  a.ty = .u64 ∧ b.ty = .u64 ∨ op.isEquality = true ∧ a.ty = .bool ∧ b.ty = .bool

/-- The lowered operator computes the word of the operator's value. -/
theorem Op.result_eq {op : Op} {a b : Scalar} (h : op.Accepts a b) :
    op.result a.toWord b.toWord = (op.eval a b).map Scalar.toWord := by
  cases a with
  | word a =>
    cases b with
    | truth b => simp [Accepts, Scalar.ty] at h
    | word b =>
      cases op with
      | add =>
        change (a.checkedAdd b).map id = ((a.checkedAdd b).map Scalar.word).map Scalar.toWord
        rw [Option.map_map]
        rfl
      | subtract =>
        change (a.checkedSub b).map id = ((a.checkedSub b).map Scalar.word).map Scalar.toWord
        rw [Option.map_map]
        rfl
      | notEqual =>
        change some (ofBool (decide (ofBool (decide (a = b)) = 0))) = _
        rw [ofBool_eq_zero, ← decide_not]
        rfl
      | lessEqual =>
        change some (ofBool (decide (ofBool (decide (b < a)) = 0))) = _
        rw [ofBool_eq_zero, not_decide_lt]
        rfl
      | greaterEqual =>
        change some (ofBool (decide (ofBool (decide (a < b)) = 0))) = _
        rw [ofBool_eq_zero, not_decide_lt]
        rfl
      | _ => rfl
  | truth a =>
    cases b with
    | word b => simp [Accepts, Scalar.ty] at h
    | truth b =>
      have hop : op.isEquality = true := (h.resolve_left (by simp [Scalar.ty])).1
      cases op with
      | equal =>
        change some (ofBool (decide (ofBool a = ofBool b))) = _
        rw [ofBool_inj]
        rfl
      | notEqual =>
        change some (ofBool (decide (ofBool (decide
          (ofBool a = ofBool b)) = 0))) = _
        rw [ofBool_eq_zero, ofBool_inj]
        rfl
      | _ => cases hop

section
variable {A : AddressCodec} {env : Environment} {scope : Scope}

/-- A well-formed environment, and a context that knows whether the deadline is past. -/
structure Matched (env : Environment) (scope : Scope) : Prop where
  env : env.WellFormed
  deadline : scope.context.beforeDeadline = decide (scope.context.height < scope.deadline)

lemma callValue_operand (hdeadline : scope.context.beforeDeadline = decide (scope.context.height < scope.deadline))
    {n : String} {b : Operand × Ty} (h : builtin n = some b) (regs : Registers) (immediate : Word64) :
    ∃ v, scope.callValue n = some v ∧ v.toWord = scope.context.operand regs immediate b.1 := by
  unfold builtin at h
  split at h
  case h_6 =>
    cases h
    refine ⟨_, rfl, ?_⟩
    simp only [Scalar.toWord, Context.operand, hdeadline]
  case h_7 =>
    cases h
    refine ⟨_, rfl, ?_⟩
    simp only [Scalar.toWord, Context.operand, hdeadline, not_decide_lt]
  case h_18 => cases h
  all_goals
    cases h
    exact ⟨_, rfl, rfl⟩

lemma builtin_not_register {n : String} {b : Operand × Ty} (h : builtin n = some b) (r : Register) :
    b.1 ≠ registerOperand r := by
  unfold builtin at h
  split at h
  case h_18 => cases h
  all_goals
    cases h
    cases r <;> exact fun hr => by cases hr

variable {e : Expr} {target : Option Register}

/-- The operand of a constant or a name denotes its value. -/
theorem direct_ok (hm : Matched env scope) {w : Word} (h : env.direct A e = some (.ok w)) :
    w.temporary = none ∧ (∀ st, Held st w) ∧
      ∀ regs, ∃ v, eval env scope (stateOf regs) e = some v ∧ w.value scope.context regs = v.toWord := by
  unfold Environment.direct at h
  split_ifs at h with hconstant
  · simp only [Option.some.injEq, bind_eq_ok] at h
    obtain ⟨value, hvalue, h⟩ := h
    have heval : ∀ s, eval env scope s e = value.scalar := fun s => eval_value hvalue
    cases value with
    | u64 n =>
      cases h
      exact ⟨rfl, fun _ => held_literal n, fun regs => ⟨_, heval _, Word.value_literal n⟩⟩
    | bool b =>
      cases h
      exact ⟨rfl, fun _ => held_literal _, fun regs => ⟨_, heval _, Word.value_literal _⟩⟩
    | address text => cases h
  · cases e with
    | value v span => cases h
    | old n span => cases h
    | not e span => cases h
    | binary op l r span => cases h
    | name n span =>
      have hvalues : env.values.lookup n = none := Option.not_isSome_iff_eq_none.mp hconstant
      cases hstate : env.states.lookup n with
      | some r =>
        simp only [hstate, Option.some.injEq, Except.ok.injEq] at h
        subst h
        refine ⟨rfl, fun st => ⟨?_, fun _ hr => by cases hr⟩, fun regs => ⟨.word (regs r), ?_, Word.value_register r false⟩⟩
        · intro r' hr'
          obtain rfl := registerOperand_injective hr'
          rcases hm.env.states n r hstate with rfl | rfl <;> rfl
        · simp only [eval, hvalues, hstate]
          rcases hm.env.states n r hstate with rfl | rfl <;> rfl
      | none =>
        simp only [hstate, Option.map_eq_some_iff] at h
        obtain ⟨b, hb, h⟩ := h
        cases h
        refine ⟨rfl, fun st => ⟨fun r hr => absurd hr (builtin_not_register hb r), fun _ hr => by cases hr⟩, fun regs => ?_⟩
        obtain ⟨v, hv, hword⟩ := callValue_operand hm.deadline hb regs 0
        refine ⟨v, ?_, hword.symm⟩
        simp only [eval, hvalues, hstate, hv]

/-- A lowered expression: its operand is held, and under an active guard its code leaves the value there. -/
structure ExprOk (env : Environment) (scope : Scope) (e : Expr) (p : Predicate) (st : Lowering)
    (target : Option Register) (w : Word) (st' : Lowering) : Prop where
  held : Held st' w
  used : ∀ r, st'.used r = (st.used r || decide (w.temporary = some r))
  fresh : ∀ r, w.temporary = some r → st.used r = false
  result : ∀ t, target = some t → w = .register t false
  code : ∃ code, st'.program = st.program ++ code ∧ (∀ i ∈ code, i.predicate = p) ∧
    ∀ (regs : Registers) (step : ℕ), p.status scope.context regs = some true →
      Realises Proper (fun v regs' => w.value scope.context regs' = v.toWord ∧ Frame st target regs regs')
        (eval env scope (stateOf regs) e) (runInstructions scope.context step code regs)

/-- A guard that lowered code does not overwrite. -/
def Guarded (p : Predicate) (st : Lowering) : Prop := ∀ r, p.reads = some r → st.used r = true

lemma Guarded.status (h : Guarded p st) (hframe : Frame st none regs regs') :
    p.status c regs' = p.status c regs :=
  Predicate.status_congr fun r hr => hframe r (h r hr) (by simp)

lemma Guarded.mono (h : Guarded p st) (hused : ∀ r, st.used r = true → st'.used r = true) : Guarded p st' :=
  fun r hr => hused r (h r hr)

lemma ExprOk.used_of_used {w : Word}
    (h : ExprOk env scope e p st target w st') (r : Register) (hr : st.used r = true) : st'.used r = true := by
  rw [h.used, hr, Bool.true_or]

lemma Operands.of_expressions {l r : Expr} {w1 w2 : Word} {st1 st2 : Lowering}
    (h1 : ExprOk env scope l p st none w1 st1) (h2 : ExprOk env scope r p st1 none w2 st2) :
    Operands st w1 w2 st2 := by
  refine ⟨fun r => by rw [h2.used, h1.used, Bool.or_assoc], h1.fresh, fun r hr => ?_⟩
  have hfree := h2.fresh r hr
  rw [h1.used, Bool.or_eq_false_iff] at hfree
  exact hfree.1

lemma ExprOk.operands {w : Word} (h : ExprOk env scope e p st none w st') : Operands st w (.literal 0) st' :=
  ⟨fun r => by simp [h.used, Word.literal], h.fresh, fun r hr => by simp [Word.literal] at hr⟩

lemma orDirect_ok (hm : Matched env scope) {w : Word} {computed : Except Error (Word × Lowering)}
    (h : Environment.orDirect (env.direct A e) st computed = .ok (w, st'))
    (hcomputed : ∀ w st', computed = .ok (w, st') → ExprOk env scope e p st none w st') :
    ExprOk env scope e p st none w st' := by
  cases hdirect : env.direct A e with
  | none =>
    rw [hdirect] at h
    exact hcomputed w st' h
  | some word =>
    rw [hdirect] at h
    simp only [Environment.orDirect, ok_rules, Prod.mk.injEq] at h
    obtain ⟨w', rfl, rfl, rfl⟩ := h
    obtain ⟨htemporary, hheld, hvalue⟩ := direct_ok hm hdirect
    refine ⟨hheld st, fun r => by simp [htemporary], fun r hr => by simp [htemporary] at hr, fun _ hr => (by cases hr), [], by simp,
      by simp, ?_⟩
    intro regs step hactive
    obtain ⟨v, hv, hword⟩ := hvalue regs
    rw [hv]
    exact ⟨hword, .refl⟩

/-- What an operation leaves behind, from what its tail did. -/
theorem ExprOk.of_register {d : Register} (htarget : ∀ t, target = some t → st.used t = true)
    (hd : target = some d ∨ target = none ∧ st.used d = false)
    (hused : ∀ r, st'.used r = (st.used r || decide (target = none ∧ d = r)))
    (hcode : ∃ code, st'.program = st.program ++ code ∧ (∀ i ∈ code, i.predicate = p) ∧
      ∀ (regs : Registers) (step : ℕ), p.status scope.context regs = some true →
        Realises Proper (fun v regs' => regs' d = v.toWord ∧ Frame st target regs regs')
          (eval env scope (stateOf regs) e) (runInstructions scope.context step code regs)) :
    ExprOk env scope e p st target (.register d target.isNone) st' := by
  have htemporary : ∀ r, (Word.register d target.isNone).temporary = some r ↔ target = none ∧ d = r := by
    intro r
    unfold Word.register
    cases target <;> simp
  have hfresh : ∀ r, (Word.register d target.isNone).temporary = some r → d = r ∧ st.used r = false := by
    intro r hr
    obtain ⟨hnone, rfl⟩ := (htemporary r).mp hr
    exact ⟨rfl, (hd.resolve_left (by simp [hnone])).2⟩
  have hheld : st'.used d = true := by
    rw [hused]
    rcases hd with hd | ⟨hd, -⟩
    · rw [htarget d hd, Bool.true_or]
    · simp [hd]
  refine ⟨⟨?_, ?_⟩, ?_, ?_, ?_, ?_⟩
  · intro r hr
    obtain rfl := registerOperand_injective hr
    exact hheld
  · intro r hr
    obtain ⟨rfl, hfree⟩ := hfresh r hr
    exact ⟨rfl, isScratch_of_unused hfree⟩
  · intro r
    rw [hused]
    congr 1
    exact decide_eq_decide.mpr (htemporary r).symm
  · exact fun r hr => (hfresh r hr).2
  · rintro t rfl
    rcases hd with hd | ⟨hd, -⟩
    · cases hd
      rfl
    · cases hd
  · obtain ⟨code, hprogram, hpredicate, hrun⟩ := hcode
    refine ⟨code, hprogram, hpredicate, fun regs step hactive => (hrun regs step hactive).mono ?_⟩
    rintro v regs' ⟨hvalue, hframe⟩
    exact ⟨by rw [Word.value_register, hvalue], hframe⟩

lemma Frame.trans {st1 : Lowering} {regs'' : Registers} (h : Frame st none regs regs')
    (hused : ∀ r, st.used r = true → st1.used r = true) (h' : Frame st1 target regs' regs'') :
    Frame st target regs regs'' :=
  fun r hr htarget => (h' r (hused r hr) htarget).trans (h r hr (by simp))

lemma reads_ne {d : Register} (hguard : Guarded p st)
    (htarget : ∀ t, target = some t → st.used t = true ∧ p.reads ≠ some t)
    (hd : target = some d ∨ target = none ∧ st.used d = false) : p.reads ≠ some d := by
  rcases hd with hd | ⟨-, hd⟩
  · exact (htarget d hd).2
  · intro hreads
    rw [hguard d hreads] at hd
    cases hd

/-- A result that was written to its register, over code that kept the registers in use. -/
theorem tail_ok {d : Register} {o : Option Scalar} {x : Except ProgramError Registers}
    (hd : target = some d ∨ target = none ∧ st.used d = false) (hframe : Frame st none regs regs')
    (h : Realises Proper (fun n regs'' => regs'' = update regs' d n) (o.map Scalar.toWord) x) :
    Realises Proper (fun v regs'' => regs'' d = v.toWord ∧ Frame st target regs regs'') o x := by
  refine h.of_map.mono ?_
  rintro v regs'' rfl
  refine ⟨update_self _ _ _, hframe.trans (fun _ hr => hr) (.update ?_)⟩
  rcases hd with hd | ⟨-, hd⟩
  · exact .inl hd
  · exact .inr hd

lemma isComputing_lower (op : Op) : IsComputing op.lower.1 := by cases op <;> trivial

/-- The types of the operands of a typed operator. -/
theorem ty_binary {old : Bool} {op : Op} {l r : Expr} {span : Span} {t : Ty}
    (h : env.ty old (.binary op l r span) = .ok t) :
    ∃ tl tr, env.ty old l = .ok tl ∧ env.ty old r = .ok tr ∧
      ((tl = .u64 ∧ tr = .u64) ∧ t = (if op.isArithmetic then .u64 else .bool) ∨
        (op.isEquality = true ∧ tl = .bool ∧ tr = .bool) ∧ t = .bool) := by
  simp only [Environment.ty, bind_eq_ok] at h
  obtain ⟨tl, hl, tr, hr, h⟩ := h
  refine ⟨tl, tr, hl, hr, ?_⟩
  by_cases hbool : op.isEquality = true ∧ tl = .bool ∧ tr = .bool
  · rw [if_pos hbool] at h
    exact .inr ⟨hbool, (pure_eq_ok.mp h).symm⟩
  · rw [if_neg hbool] at h
    simp only [ok_rules] at h
    exact .inl ⟨h.1, h.2.symm⟩

/-- **Lowered operations compute their value**, in a register that is free or the target. -/
theorem compound_ok (hm : Matched env scope)
    {w : Word} {t : Ty} (hty : env.ty false e = .ok t) (hguard : Guarded p st)
    (htarget : ∀ t, target = some t → st.used t = true ∧ p.reads ≠ some t)
    (h : env.compound A e target p st = .ok (w, st')) : ExprOk env scope e p st target w st' := by
  induction e generalizing target w t st st' with
  | value v span => cases h
  | name n span => cases h
  | old n span => cases h
  | not e span ih =>
    simp only [Environment.ty, bind_eq_ok] at hty
    obtain ⟨te, hte, hty⟩ := hty
    simp only [ok_rules] at hty
    obtain ⟨rfl, -⟩ := hty
    simp only [Environment.compound, bind_eq_ok, Prod.exists] at h
    obtain ⟨w1, st1, hword, hfinish⟩ := h
    have h1 := orDirect_ok hm hword fun w st' hw => ih hte hguard (by simp) hw
    obtain ⟨code1, hprogram1, hcode1, hrun1⟩ := h1.code
    obtain ⟨d, code, hprogram, hcode, rfl, hd, hused, hrun⟩ :=
      finish_ok hfinish trivial h1.operands fun t ht => (htarget t ht).1
    refine .of_register (fun t ht => (htarget t ht).1) hd hused ⟨code1 ++ code, ?_, ?_, ?_⟩
    · rw [hprogram, hprogram1, append_assoc]
    · exact forall_mem_append.mpr ⟨hcode1, hcode⟩
    · intro regs step hactive
      rw [runInstructions_append]
      refine (hrun1 regs step hactive).bind ?_
      rintro v regs1 hv ⟨hvalue, hframe⟩
      have hactive1 : p.status scope.context regs1 = some true := by rw [hguard.status hframe, hactive]
      have hrun := hrun (step + code1.length) hactive1 (reads_ne hguard htarget hd)
      cases v with
      | word n => cases ty_sound hte hv
      | truth b =>
        have hnot : ((compute (ofBool b) 0 .equal).map
            fun n => if false = true then .ofBool (decide (n = 0)) else n) =
            (some (Scalar.truth !b)).map Scalar.toWord := by
          change some (ofBool (decide (ofBool b = 0))) = _
          rw [ofBool_eq_zero]
          rfl
        rw [hvalue, Word.value_literal, show (Scalar.truth b).toWord = .ofBool b from rfl, hnot] at hrun
        exact tail_ok hd hframe hrun
  | binary op l r span ihl ihr =>
    obtain ⟨tl, tr, hl, hr, htypes⟩ := ty_binary hty
    simp only [Environment.compound, bind_eq_ok, Prod.exists] at h
    obtain ⟨w1, st1, hword1, w2, st2, hword2, hfinish⟩ := h
    have h1 := orDirect_ok hm hword1 fun w st' hw => ihl hl hguard (by simp) hw
    have hguard1 := hguard.mono h1.used_of_used
    have h2 := orDirect_ok hm hword2 fun w st' hw => ihr hr hguard1 (by simp) hw
    obtain ⟨code1, hprogram1, hcode1, hrun1⟩ := h1.code
    obtain ⟨code2, hprogram2, hcode2, hrun2⟩ := h2.code
    have hst : Operands st w1 w2 st2 := .of_expressions h1 h2
    -- the operands in the order of the instruction
    obtain ⟨wl, wr, hst, hfinish, hresult⟩ : ∃ wl wr, Operands st wl wr st2 ∧
        st2.finish op.lower.1 wl wr op.lower.2.2 target p span = .ok (w, st') ∧
        ∀ regs, ((compute (wl.value scope.context regs) (wr.value scope.context regs) op.lower.1).map
          fun n => if op.lower.2.2 then .ofBool (decide (n = 0)) else n)
          = op.result (w1.value scope.context regs) (w2.value scope.context regs) := by
      unfold Op.result
      split_ifs at hfinish with hswap
      · exact ⟨w2, w1, hst.swap, hfinish, fun regs => by rw [if_pos hswap]⟩
      · exact ⟨w1, w2, hst, hfinish, fun regs => by rw [if_neg hswap]⟩
    obtain ⟨d, code, hprogram, hcode, rfl, hd, hused, hrun⟩ :=
      finish_ok hfinish (isComputing_lower op) hst fun t ht => (htarget t ht).1
    refine .of_register (fun t ht => (htarget t ht).1) hd hused ⟨code1 ++ (code2 ++ code), ?_, ?_, ?_⟩
    · rw [hprogram, hprogram2, hprogram1, append_assoc, append_assoc]
    · exact forall_mem_append.mpr ⟨hcode1, forall_mem_append.mpr ⟨hcode2, hcode⟩⟩
    · intro regs step hactive
      rw [runInstructions_append]
      refine (hrun1 regs step hactive).bind ?_
      rintro a regs1 ha ⟨hvalue1, hframe1⟩
      have hactive1 : p.status scope.context regs1 = some true := by rw [hguard.status hframe1, hactive]
      rw [runInstructions_append]
      have hright := hrun2 regs1 (step + code1.length) hactive1
      rw [hframe1.stateOf] at hright
      refine hright.bind ?_
      rintro b regs2 hb ⟨hvalue2, hframe2⟩
      have hactive2 : p.status scope.context regs2 = some true := by rw [hguard1.status hframe2, hactive1]
      have hrun := hrun (step + code1.length + code2.length) hactive2 (reads_ne hguard htarget hd)
      have hab : op.Accepts a b := by
        rw [Op.Accepts, ty_sound hl ha, ty_sound hr hb]
        exact htypes.imp And.left And.left
      rw [hresult, h1.held.value_eq hframe2, hvalue1, hvalue2, Op.result_eq hab] at hrun
      exact tail_ok hd (hframe1.trans h1.used_of_used hframe2) hrun

end

end Noid.Pruv
