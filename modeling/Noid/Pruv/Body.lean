import Noid.Pruv.Simulation

/-! # Lowered bodies run the contract

The code of a statement realises it on the state registers when its guard is active and leaves them alone when it is not.
The condition of a `when` is computed under the surrounding guard into a register that was reset before, so that an
inactive `when` guards its body with false. -/

namespace Noid.Pruv

open Noid.Lib Noid.Tx List

variable {p : Predicate} {st st' : Lowering} {regs regs' : Registers} {A : AddressCodec} {env : Environment}
  {scope : Scope}

variable {e : Expr} {opcode : Opcode}

lemma expression_ok (hm : Matched env scope)
    {t : Register} {w : Word} {ty : Ty} (hty : env.ty false e = .ok ty) (hguard : Guarded p st)
    (ht : st.used t = true) (hreads : p.reads ≠ some t)
    (h : env.expression A e (some t) p st = .ok (w, st')) :
    (∀ r, st'.used r = st.used r) ∧ ∃ code, st'.program = st.program ++ code ∧ (∀ i ∈ code, i.predicate = p) ∧
        ∀ (regs : Registers) (step : ℕ), p.status scope.context regs = some true →
          Realises Proper (fun v regs' => regs' t = v.toWord ∧ Frame st (some t) regs regs')
            (eval env scope (stateOf regs) e) (runInstructions scope.context step code regs) := by
  unfold Environment.expression at h
  cases hdirect : env.direct A e with
  | some word =>
    rw [hdirect] at h
    simp only [ok_rules, Prod.mk.injEq] at h
    obtain ⟨value, rfl, st1, hemit, -, rfl⟩ := h
    obtain ⟨-, -, hvalue⟩ := direct_ok hm hdirect
    obtain ⟨i, hi⟩ := emit_ok hemit
    refine ⟨hi.used, [i], hi.program, by simpa using hi.predicate, ?_⟩
    intro regs step hactive
    obtain ⟨v, hv, hword⟩ := hvalue regs
    rw [hv, runInstructions_cons, hi.run step hactive, hword]
    exact ⟨Function.update_self _ _ _, .update (.inl rfl)⟩
  | none =>
    rw [hdirect] at h
    have hok := compound_ok hm hty hguard (by simpa using ⟨ht, hreads⟩) h
    obtain rfl := hok.result t rfl
    obtain ⟨code, hprogram, hcode, hrun⟩ := hok.code
    refine ⟨fun r => by simp [hok.used, Word.register], code, hprogram, hcode, ?_⟩
    intro regs step hactive
    refine (hrun regs step hactive).mono ?_
    rintro v regs' ⟨hvalue, hframe⟩
    rw [Word.value_register] at hvalue
    exact ⟨hvalue, hframe⟩

/-- An expression as an operand. -/
theorem word_ok (hm : Matched env scope) {w : Word} {ty : Ty} (hty : env.ty false e = .ok ty) (hguard : Guarded p st)
    (h : env.word A e p st = .ok (w, st')) : ExprOk env scope e p st none w st' :=
  orDirect_ok hm h fun _ _ hw => compound_ok hm hty hguard (by simp) hw

/-! ### Statements -/

/-- Lowered code that realises a change of the state under an active guard. -/
structure StatementOk (scope : Scope) (p : Predicate) (st st' : Lowering) (o : StatePair → Option StatePair) :
    Prop where
  used : ∀ r, st'.used r = st.used r
  code : ∃ code, st'.program = st.program ++ code ∧
    ∀ (regs : Registers) (step : ℕ) (b : Bool), p.status scope.context regs = some b →
      Realises Proper (fun s regs' => stateOf regs' = s ∧ ∀ r, IsScratch r → st.used r = true → regs' r = regs r)
        (if b then o (stateOf regs) else some (stateOf regs)) (runInstructions scope.context step code regs)

lemma StatementOk.of_guarded {o : StatePair → Option StatePair} (hused : ∀ r, st'.used r = st.used r)
    {code : List Instruction} (hprogram : st'.program = st.program ++ code) (hcode : ∀ i ∈ code, i.predicate = p)
    (hrun : ∀ (regs : Registers) (step : ℕ), p.status scope.context regs = some true →
      Realises Proper (fun s regs' => stateOf regs' = s ∧ ∀ r, IsScratch r → st.used r = true → regs' r = regs r)
        (o (stateOf regs)) (runInstructions scope.context step code regs)) :
    StatementOk scope p st st' o := by
  refine ⟨hused, code, hprogram, ?_⟩
  intro regs step b hstatus
  cases b with
  | true => exact hrun regs step hstatus
  | false =>
    rw [runInstructions_inactive hstatus hcode]
    exact ⟨rfl, fun _ _ _ => rfl⟩

lemma assign_ok (hm : Matched env scope) (hguard : Guarded p st) {name : String} {value : Expr} {span : Span}
    (h : env.lowerStatement A p st (.assign name value span) = .ok st') :
    StatementOk scope p st st' fun s => runStatement env scope s (.assign name value span) := by
  simp only [Environment.lowerStatement, ok_rules, Prod.exists] at h
  obtain ⟨target, hstate, ty, hty, rfl, w, st1, hexpr, rfl⟩ := h
  have htarget := hm.env.states name target hstate
  have hreads : p.reads ≠ some target := by
    unfold Predicate.reads
    rcases htarget with rfl | rfl <;> split <;> simp
  have hused : st.used target = true := by rcases htarget with rfl | rfl <;> rfl
  obtain ⟨hst, code, hprogram, hcode, hrun⟩ := expression_ok hm hty hguard hused hreads hexpr
  refine .of_guarded hst hprogram hcode ?_
  intro regs step hactive
  simp only [runStatement, hstate]
  refine (hrun regs step hactive).bind_spec ?_
  rintro v regs' hv ⟨hvalue, hframe⟩
  cases v with
  | truth b => cases ty_sound hty hv
  | word n =>
    have hother : ∀ r, r ≠ target → st.used r = true → regs' r = regs r := fun r hr hused =>
      hframe r hused fun heq => hr (Option.some.inj heq).symm
    have hscratch : ∀ r, IsScratch r → st.used r = true → regs' r = regs r := by
      intro r hr hused
      refine hother r ?_ hused
      rintro rfl
      rcases hr with rfl | rfl <;> rcases htarget with h | h <;> cases h
    rcases htarget with rfl | rfl
    · exact ⟨_, rfl, Prod.ext hvalue (hother .state1 (by decide) rfl), hscratch⟩
    · exact ⟨_, rfl, Prod.ext (hother .state0 (by decide) rfl) hvalue, hscratch⟩

def asserts (a b : Word64) : Opcode → Bool
  | .assertLessOrEqual => decide (a ≤ b)
  | _ => decide (a = b)

lemma Emitted.run_assert {left right : Word} {i : Instruction} {c : Context}
    (h : Emitted st opcode .state0 left right p st' i) (hop : opcode = .assertEqual ∨ opcode = .assertLessOrEqual)
    (step : ℕ) (hactive : p.status c regs = some true) :
    i.run c step regs =
      if asserts (left.value c regs) (right.value c regs) opcode then .ok regs else .error (.assertion step) := by
  rw [h.run step hactive]
  rcases hop with rfl | rfl
  · by_cases heq : left.value c regs = right.value c regs
    · simp [Opcode.apply, asserts, heq, require, bind, Except.bind, pure, Except.pure]
    · simp [Opcode.apply, asserts, heq, require, bind, Except.bind]
  · by_cases hle : left.value c regs ≤ right.value c regs
    · simp [Opcode.apply, asserts, hle, require, bind, Except.bind, pure, Except.pure]
    · simp [Opcode.apply, asserts, hle, require, bind, Except.bind]

/-- A `require` that is lowered to one assertion, after its operands. -/
theorem StatementOk.of_assert {o : StatePair → Option StatePair} {st1 st2 : Lowering}
    {left right : Word} {i : Instruction} {code : List Instruction} {b : StatePair → Option Bool}
    (hused : ∀ r, st'.used r = st.used r) (hprogram' : st'.program = st2.program)
    (hop : opcode = .assertEqual ∨ opcode = .assertLessOrEqual) (hguard : Guarded p st)
    (hi : Emitted st1 opcode .state0 left right p st2 i) (hprogram : st1.program = st.program ++ code)
    (hcode : ∀ i ∈ code, i.predicate = p)
    (ho : ∀ s, o s = (b s).bind fun b => if b then some s else none)
    (hrun : ∀ (regs : Registers) (step : ℕ), p.status scope.context regs = some true →
      Realises Proper (fun b regs' => asserts (left.value scope.context regs') (right.value scope.context regs') opcode
          = b ∧ Frame st none regs regs')
        (b (stateOf regs)) (runInstructions scope.context step code regs)) :
    StatementOk scope p st st' o := by
  have hlowered : st'.program = st.program ++ (code ++ [i]) := by
    rw [hprogram', hi.program, hprogram, append_assoc]
  refine .of_guarded hused hlowered ?_ ?_
  · exact forall_mem_append.mpr ⟨hcode, by simpa using hi.predicate⟩
  · intro regs step hactive
    rw [ho, runInstructions_append]
    refine (hrun regs step hactive).bind ?_
    rintro b regs' - ⟨rfl, hframe⟩
    have hactive' : p.status scope.context regs' = some true := by rw [hguard.status hframe, hactive]
    rw [runInstructions_cons, hi.run_assert hop _ hactive']
    split_ifs
    · exact ⟨hframe.stateOf, fun r _ hr => hframe r hr (by simp)⟩
    · exact fun _ => by simp

def Scalar.truth? : Scalar → Option Bool
  | .truth b => some b
  | .word _ => none

lemma runStatement_require (s : StatePair) (e : Expr) :
    runStatement env scope s (.require e) =
      ((eval env scope s e).bind Scalar.truth?).bind fun b => if b then some s else none := by
  rw [runStatement]
  cases eval env scope s e with
  | none => rfl
  | some v =>
    cases v with
    | word n => rfl
    | truth b => cases b <;> rfl

lemma Operands.release {left right : Word} {st1 : Lowering} (hst : Operands st left right st1)
    (h : ∀ r, st'.used r = st1.used r) :
    ((left.temporary.toList ++ right.temporary.toList).foldl Lowering.release st').program = st'.program ∧
      ∀ r, ((left.temporary.toList ++ right.temporary.toList).foldl Lowering.release st').used r = st.used r := by
  obtain ⟨hprogram, hused⟩ := releaseAll (fun _ => False) hst.isScratch
  simp only [if_false] at hprogram hused
  refine ⟨hprogram, fun r => ?_⟩
  rw [hused, h, hst.used]
  by_cases hr : left.temporary = some r ∨ right.temporary = some r
  · have hfree : st.used r = false := hr.elim (hst.left r) (hst.right r)
    simp [hfree, hr]
  · obtain ⟨hl, hr⟩ := not_or.mp hr
    simp [hl, hr]

lemma requireTrue_ok (hm : Matched env scope) (hguard : Guarded p st) (hty : env.ty false e = .ok .bool)
    (h : env.requireTrue A e p st = .ok st') :
    StatementOk scope p st st' fun s => runStatement env scope s (.require e) := by
  simp only [Environment.requireTrue, ok_rules, Prod.exists] at h
  obtain ⟨w, st1, hword, st2, hemit, rfl⟩ := h
  have hw := word_ok hm hty hguard hword
  obtain ⟨code, hprogram, hcode, hrun⟩ := hw.code
  obtain ⟨i, hi⟩ := emit_ok hemit
  obtain ⟨hprogram', hused⟩ := hw.operands.release hi.used
  simp only [Word.literal, Option.toList_none, append_nil] at hprogram' hused
  refine .of_assert hused hprogram' (.inl rfl) hguard hi hprogram hcode (fun s => runStatement_require s e) ?_
  intro regs step hactive
  refine (hrun regs step hactive).bind_spec ?_
  rintro v regs' hv ⟨hvalue, hframe⟩
  cases v with
  | word n => cases ty_sound hty hv
  | truth b =>
    refine ⟨b, rfl, ?_, hframe⟩
    rw [hvalue, Word.value_literal]
    cases b <;> rfl

/-- An operator that is asserted directly is true exactly when its assertion passes. -/
theorem assertion_eval {op : Op} {swap : Bool} {a b : Scalar} (h : Environment.assertion op = some (opcode, swap))
    (hty : op.Accepts a b) : op.eval a b = some (.truth (if swap then asserts b.toWord a.toWord opcode
      else asserts a.toWord b.toWord opcode)) := by
  cases op
  case equal =>
    cases h
    cases a <;> cases b
    case word.word => rfl
    case truth.truth a b =>
      change some (Scalar.truth (a == b)) = some (.truth (decide (Word64.ofBool a = Word64.ofBool b)))
      rw [ofBool_inj]
    all_goals simp [Op.Accepts, Scalar.ty] at hty
  case lessEqual | greaterEqual =>
    cases h
    obtain ⟨ha, hb⟩ := hty.resolve_right (by simp [Op.isEquality])
    cases a
    case truth => cases ha
    cases b
    case truth => cases hb
    rfl
  all_goals cases h

lemma assertion_opcode {op : Op} {swap : Bool} (h : Environment.assertion op = some (opcode, swap)) :
    opcode = .assertEqual ∨ opcode = .assertLessOrEqual := by
  cases op <;> cases h <;> simp

lemma requireComparison_ok (hm : Matched env scope)
    (hguard : Guarded p st) {op : Op} {l r : Expr} {span : Span} {swap : Bool}
    (hty : env.ty false (.binary op l r span) = .ok .bool)
    (hassert : Environment.assertion op = some (opcode, swap))
    (h : env.requireComparison A opcode swap l r p span st = .ok st') :
    StatementOk scope p st st' fun s => runStatement env scope s (.require (.binary op l r span)) := by
  obtain ⟨tl, tr, hl, hr, htypes⟩ := ty_binary hty
  simp only [Environment.requireComparison, bind_eq_ok, Prod.exists] at h
  obtain ⟨w1, st1, hword1, w2, st2, hword2, h⟩ := h
  have h1 := word_ok hm hl hguard hword1
  have hguard1 := hguard.mono h1.used_of_used
  have h2 := word_ok hm hr hguard1 hword2
  obtain ⟨code1, hprogram1, hcode1, hrun1⟩ := h1.code
  obtain ⟨code2, hprogram2, hcode2, hrun2⟩ := h2.code
  have hst : Operands st w1 w2 st2 := .of_expressions h1 h2
  -- the operands in the order of the assertion
  have key : ∀ left right st3, Operands st left right st2 →
      (∀ regs a b, w1.value scope.context regs = a.toWord → w2.value scope.context regs = b.toWord → op.Accepts a b →
        op.eval a b = some (.truth (asserts (left.value scope.context regs) (right.value scope.context regs) opcode))) →
      st2.emit opcode .state0 left right p span = .ok st3 →
      StatementOk scope p st ((left.temporary.toList ++ right.temporary.toList).foldl Lowering.release st3)
        fun s => runStatement env scope s (.require (.binary op l r span)) := by
    intro left right st3 hst' heval hemit
    obtain ⟨i, hi⟩ := emit_ok hemit
    obtain ⟨hprogram', hused⟩ := hst'.release hi.used
    have hlowered : st2.program = st.program ++ (code1 ++ code2) := by
      rw [hprogram2, hprogram1, append_assoc]
    refine .of_assert hused hprogram' (assertion_opcode hassert) hguard hi hlowered ?_
      (fun s => runStatement_require s _) ?_
    · exact forall_mem_append.mpr ⟨hcode1, hcode2⟩
    · intro regs step hactive
      simp only [eval, Option.bind_eq_bind, Option.bind_assoc]
      rw [runInstructions_append]
      refine (hrun1 regs step hactive).bind ?_
      rintro a regs1 ha ⟨hvalue1, hframe1⟩
      have hactive1 : p.status scope.context regs1 = some true := by rw [hguard.status hframe1, hactive]
      have hright := hrun2 regs1 (step + code1.length) hactive1
      rw [hframe1.stateOf] at hright
      refine hright.bind_spec ?_
      rintro b regs2 hb ⟨hvalue2, hframe2⟩
      have hab : op.Accepts a b := by
        rw [Op.Accepts, ty_sound hl ha, ty_sound hr hb]
        exact htypes.imp And.left And.left
      have hleft : w1.value scope.context regs2 = a.toWord := by rw [h1.held.value_eq hframe2, hvalue1]
      rw [heval regs2 a b hleft hvalue2 hab]
      exact ⟨_, rfl, rfl, hframe1.trans h1.used_of_used hframe2⟩
  cases swap with
  | false =>
    simp only [Bool.false_eq_true, if_false, pure_eq_ok] at h
    obtain ⟨st3, hemit, rfl⟩ := h
    refine key w1 w2 st3 hst ?_ hemit
    intro regs a b ha hb hab
    rw [assertion_eval hassert hab, ha, hb]
    rfl
  | true =>
    simp only [if_true, pure_eq_ok] at h
    obtain ⟨st3, hemit, rfl⟩ := h
    refine key w2 w1 st3 hst.swap ?_ hemit
    intro regs a b ha hb hab
    rw [assertion_eval hassert hab, ha, hb]
    rfl

lemma require_ok (hm : Matched env scope)
    (hguard : Guarded p st) (h : env.lowerStatement A p st (.require e) = .ok st') :
    StatementOk scope p st st' fun s => runStatement env scope s (.require e) := by
  simp only [Environment.lowerStatement, ok_rules] at h
  obtain ⟨t, hty, rfl, h⟩ := h
  unfold Environment.lowerRequire at h
  split_ifs at h with hconstant
  · exact requireTrue_ok hm hguard hty h
  · split at h
    · split at h
      · exact requireComparison_ok hm hguard hty ‹_› h
      · exact requireTrue_ok hm hguard hty h
    · exact requireTrue_ok hm hguard hty h

/-! ### Guarded blocks -/

lemma eval_builtin (hm : Matched env scope) {n : String} (hn : (builtin n).isSome) (s : StatePair) (span : Span) :
    eval env scope s (.name n span) = scope.callValue n := by
  obtain ⟨hvalues, hstates⟩ := hm.env.builtin n hn
  simp only [eval, hvalues, hstates]

/-- A condition that the call decides is its predicate. -/
theorem directPredicate_ok (hm : Matched env scope) {d : Predicate} (h : Environment.directPredicate e = some d) :
    d.reads = none ∧ ∃ b, (∀ s, eval env scope s e = some (.truth b)) ∧
      ∀ regs, d.status scope.context regs = some b := by
  induction e generalizing d with
  | value v span => cases h
  | old n span => cases h
  | binary op l r span => cases h
  | not e span ih =>
    obtain ⟨d', hd', rfl⟩ := Option.map_eq_some_iff.mp h
    obtain ⟨hreads, b, heval, hstatus⟩ := ih hd'
    refine ⟨hreads, !b, fun s => ?_, fun regs => ?_⟩
    · simp [eval, heval s]
    · have hb := hstatus regs
      unfold Predicate.status at hb ⊢
      split_ifs at hb with hle
      rw [← Option.some.inj hb]
      change (if (scope.context.predicate regs d'.source).toNat ≤ 1 then _ else _) = _
      rw [if_pos hle]
      exact congrArg some (Bool.bne_not _ _)
  | name n span =>
    unfold Environment.directPredicate at h
    split at h
    case h_1 heq => cases heq
    case h_6 => cases h
    all_goals
      rename_i heq
      cases heq
      cases h
      refine ⟨rfl, _, fun s => eval_builtin hm rfl s span, fun regs => ?_⟩
    · rw [status_of_ofBool (b := scope.context.beforeDeadline) rfl, hm.deadline]
      exact congrArg some (Bool.bne_false _)
    · rw [status_of_ofBool (b := scope.context.beforeDeadline) rfl, hm.deadline, ← not_decide_lt]
      exact congrArg some (Bool.bne_true _)
    · rw [status_of_ofBool (b := scope.context.terminal) rfl]
      exact congrArg some (Bool.bne_false _)
    · rw [status_of_ofBool (b := scope.context.hasPayout) rfl]
      exact congrArg some (Bool.bne_false _)

lemma runStatement_when (s : StatePair) (e : Expr) (body : List Statement) :
    runStatement env scope s (.when e body) =
      ((eval env scope s e).bind Scalar.truth?).bind fun b => if b then runBlock env scope s body else some s := by
  rw [runStatement]
  cases eval env scope s e with
  | none => rfl
  | some v =>
    cases v with
    | word n => rfl
    | truth b => cases b <;> rfl

lemma isScratch_of_reads {r : Register} (h : p.reads = some r) : IsScratch r := by
  unfold Predicate.reads at h
  split at h
  · exact .inl (Option.some.inj h).symm
  · exact .inr (Option.some.inj h).symm
  · cases h

lemma status_guardOn {c : Context} {r : Register} {b : Bool} (hr : IsScratch r) (h : regs r = .ofBool b) :
    (Environment.guardOn r).status c regs = some b := by
  have hsource : c.predicate regs (Environment.guardOn r).source = .ofBool b := by
    rcases hr with rfl | rfl <;> exact h
  rw [status_of_ofBool hsource]
  exact congrArg some (Bool.bne_false _)

lemma reads_guardOn {r : Register} (hr : IsScratch r) : (Environment.guardOn r).reads = some r := by
  rcases hr with rfl | rfl <;> rfl

lemma when_ok (hm : Matched env scope) (hguard : Guarded p st) {body : List Statement}
    (hbody : ∀ {p st st'}, Guarded p st → env.block A p st body = .ok st' →
      StatementOk scope p st st' fun s => runBlock env scope s body)
    (h : env.lowerStatement A p st (.when e body) = .ok st') :
    StatementOk scope p st st' fun s => runStatement env scope s (.when e body) := by
  simp only [Environment.lowerStatement, ok_rules] at h
  obtain ⟨t, hty, rfl, h⟩ := h
  cases hdirect : (if p = .ALWAYS then Environment.directPredicate e else none) with
  | some d =>
    rw [hdirect] at h
    have halways : p = .ALWAYS := by
      by_contra hne
      rw [if_neg hne] at hdirect
      cases hdirect
    rw [if_pos halways] at hdirect
    obtain ⟨hreads, b, heval, hstatus⟩ := directPredicate_ok hm hdirect
    obtain ⟨hused, code, hprogram, hrun⟩ := hbody (fun r hr => by rw [hreads] at hr; cases hr) h
    refine ⟨hused, code, hprogram, ?_⟩
    intro regs step b' hb'
    rw [halways, status_always] at hb'
    cases hb'
    have hspec : runStatement env scope (stateOf regs) (.when e body) =
        if b then runBlock env scope (stateOf regs) body else some (stateOf regs) := by
      rw [runStatement_when, heval]
      rfl
    rw [if_pos rfl, hspec]
    exact hrun regs step b (hstatus regs)
  | none =>
    rw [hdirect] at h
    simp only [ok_rules, Prod.exists] at h
    obtain ⟨r, st1, hallocate, st2, hemit, w, st3, hexpr, st4, hblock, rfl⟩ := h
    obtain ⟨hfree, hprogram1, hused1⟩ := allocate_ok hallocate
    have hr := isScratch_of_unused hfree
    obtain ⟨i, hi⟩ := emit_ok hemit
    have hused2 : ∀ r', st2.used r' = (st.used r' || decide (r = r')) := fun r' => by rw [hi.used, hused1]
    have hreads : p.reads ≠ some r := by
      intro hreads
      rw [hguard r hreads] at hfree
      cases hfree
    have hguard2 : Guarded p st2 := hguard.mono fun r' hr' => by rw [hused2, hr', Bool.true_or]
    have hheld : st2.used r = true := by simp [hused2]
    obtain ⟨hused3, code, hprogram3, hcode, hrun⟩ := expression_ok hm hty hguard2 hheld hreads hexpr
    have hguard3 : Guarded (Environment.guardOn r) st3 := by
      intro r' hr'
      rw [reads_guardOn hr] at hr'
      cases hr'
      rw [hused3, hheld]
    obtain ⟨hused4, body', hprogram4, hbody⟩ := hbody hguard3 hblock
    refine ⟨?_, i :: (code ++ body'), ?_, ?_⟩
    · intro r'
      rw [used_release hr, hused4, hused3, hused2]
      by_cases heq : r = r'
      · subst heq
        simp [hfree]
      · simp [heq]
    · rw [program_release, hprogram4, hprogram3, hi.program, hprogram1]
      simp
    · intro regs step b hb
      have hreset : i.run scope.context step regs = .ok (Function.update regs r 0) := by
        rw [hi.run step (status_always _ _)]
        rfl
      have hframe : Frame st none regs (Function.update regs r 0) := .update (.inr hfree)
      rw [runInstructions_cons, bind_of_ok hreset, runInstructions_append, ← hframe.stateOf]
      generalize hregs1 : Function.update regs r 0 = regs1 at hframe
      have hstatus : p.status scope.context regs1 = some b := by rw [hguard.status hframe, hb]
      have hkeep : ∀ {regs2 regs3 : Registers}, Frame st2 (some r) regs1 regs2 →
          (∀ r', IsScratch r' → st3.used r' = true → regs3 r' = regs2 r') →
          ∀ r', IsScratch r' → st.used r' = true → regs3 r' = regs r' := by
        intro regs2 regs3 hframe2 hframe3 r' hr' hused
        have hused' : st2.used r' = true := by rw [hused2, hused, Bool.true_or]
        have hne : some r ≠ some r' := by
          rintro ⟨⟩
          rw [hfree] at hused
          cases hused
        rw [hframe3 r' hr' (by rw [hused3, hused']), hframe2 r' hused' hne, hframe r' hused (by simp)]
      cases b with
      | false =>
        have hzero : regs1 r = .ofBool false := by
          rw [← hregs1]
          exact Function.update_self _ _ _
        rw [bind_of_ok (runInstructions_inactive hstatus hcode)]
        refine (hbody regs1 _ false (status_guardOn hr hzero)).mono ?_
        rintro s regs3 ⟨hs, hscratch⟩
        exact ⟨hs, hkeep .refl hscratch⟩
      | true =>
        rw [if_pos rfl, runStatement_when]
        have hcondition : Realises Proper (fun b regs2 => regs2 r = .ofBool b ∧ Frame st2 (some r) regs1 regs2)
            _ _ := (hrun regs1 (step + 1) hstatus).bind_spec (f := Scalar.truth?) <| by
            rintro v regs2 hv ⟨hvalue, hframe2⟩
            cases v with
            | word n => cases ty_sound hty hv
            | truth b => exact ⟨b, rfl, hvalue, hframe2⟩
        refine hcondition.bind ?_
        rintro b regs2 - ⟨hvalue, hframe2⟩
        rw [← hframe2.stateOf_of_isScratch hr]
        refine (hbody regs2 _ b (status_guardOn hr hvalue)).mono ?_
        rintro s regs3 ⟨hs, hscratch⟩
        exact ⟨hs, hkeep hframe2 hscratch⟩

mutual

lemma statement_ok (hm : Matched env scope) :
    ∀ (statement : Statement) {p : Predicate} {st st' : Lowering}, Guarded p st →
      env.lowerStatement A p st statement = .ok st' →
        StatementOk scope p st st' fun s => runStatement env scope s statement
  | .assign _ _ _, _, _, _, hguard, h => assign_ok hm hguard h
  | .require _, _, _, _, hguard, h => require_ok hm hguard h
  | .when _ body, _, _, _, hguard, h => when_ok hm hguard (block_ok hm body) h

/-- **The code of a block realises the block.** -/
theorem block_ok (hm : Matched env scope) :
    ∀ (body : List Statement) {p : Predicate} {st st' : Lowering}, Guarded p st →
      env.block A p st body = .ok st' → StatementOk scope p st st' fun s => runBlock env scope s body
  | [], p, st, st', _, h => by
    cases h
    refine ⟨fun _ => rfl, [], (append_nil _).symm, ?_⟩
    intro regs step b _
    rw [runInstructions_nil, runBlock, ite_self]
    exact ⟨rfl, fun _ _ _ => rfl⟩
  | statement :: rest, p, st, st', hguard, h => by
    rw [Environment.block, bind_eq_ok] at h
    obtain ⟨st1, hstatement, hrest⟩ := h
    obtain ⟨hused1, code1, hprogram1, hrun1⟩ := statement_ok hm statement hguard hstatement
    have hguard1 : Guarded p st1 := hguard.mono fun r hr => by rw [hused1, hr]
    obtain ⟨hused2, code2, hprogram2, hrun2⟩ := block_ok hm rest hguard1 hrest
    refine ⟨fun r => by rw [hused2, hused1], code1 ++ code2, ?_, ?_⟩
    · rw [hprogram2, hprogram1, append_assoc]
    · intro regs step b hb
      have hspec : (if b then runBlock env scope (stateOf regs) (statement :: rest) else some (stateOf regs)) =
          (if b then runStatement env scope (stateOf regs) statement else some (stateOf regs)).bind
            fun s => if b then runBlock env scope s rest else some s := by
        cases b with
        | false => rfl
        | true => rfl
      rw [hspec, runInstructions_append]
      refine (hrun1 regs step b hb).bind ?_
      rintro s regs1 - ⟨rfl, hscratch1⟩
      have hstatus : p.status scope.context regs1 = some b := by
        rw [← hb]
        exact Predicate.status_congr fun r hr => hscratch1 r (isScratch_of_reads hr) (hguard r hr)
      refine (hrun2 regs1 _ b hstatus).mono ?_
      rintro s regs2 ⟨hs, hscratch2⟩
      exact ⟨hs, fun r hr hused => (hscratch2 r hr (by rw [hused1, hused])).trans (hscratch1 r hr hused)⟩

end

end Noid.Pruv
