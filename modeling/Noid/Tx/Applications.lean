import Noid.Lib.Window
import Noid.Tx.ObjectChain

/-! # Scheduled wallets

Constructors of contract objects with a schedule.  Their programs run their checks before the deadline only, so that the
closing call of the recovery key passes from any state.  Before the deadline each program is a step on its two state
registers. -/

namespace Noid.Tx

open Noid.Lib

/-- An instruction without a guard. -/
def Instruction.new (opcode : Opcode) (destination : Register) (left right : Operand) (immediate : Word64) :
    Instruction where
  opcode := opcode
  destination := destination
  left := left
  right := right
  predicate := .ALWAYS
  immediate := immediate

/-- The instruction under a guard. -/
def Instruction.when (i : Instruction) (predicate : Predicate) : Instruction := { i with predicate := predicate }

/-- A wallet with a spending key before and a recovery key from a height on. -/
def allowanceWallet (spendingKey recoveryKey : Address) (payoutRecipient : Option Address)
    (recoverAt maxFee maxPayout minRetained : ℕ) : ObjectOpening where
  program := EMPTY_PROGRAM
  state := 0
  claimAuthority := spendingKey
  recoveryAuthority := recoveryKey
  deadline := recoverAt
  claimRecipient := payoutRecipient.getD spendingKey
  recoveryRecipient := recoveryKey
  rules :=
    { maxFee := maxFee, minRetained := minRetained, maxPayout := maxPayout
      modes := CLAIM_CONTINUE ||| RECOVERY_CLOSE ||| if payoutRecipient.isNone then ANY_PAYOUT_RECIPIENT else 0 }

/-- Why terms are refused. -/
inductive ScheduleError where
  | emptyPeriod | emptyAmount | deadlineBeforeStart | heightOverflow | feeExceedsBudget
deriving DecidableEq, Repr

/-- The checks that all schedules share. -/
def validateSchedule (start period deadline : Word64) : Except ScheduleError Unit := do
  require (period ≠ 0) .emptyPeriod
  require (start < deadline) .deadlineBeforeStart
  require ((deadline - 1).checkedAdd period).isSome .heightOverflow

/-- Instructions in front of an empty program. -/
def ObjectOpening.install (o : ObjectOpening) (instructions : List Instruction) : ObjectOpening :=
  { o with program := padProgram instructions }

/-! ### Period budgets -/

/-- The terms of a budget wallet. -/
structure PeriodBudget where
  startHeight : Word64
  periodBlocks : Word64
  budget : Word64
  recoverAt : Word64
  maxFee : Word64
  maxPayout : Word64
  minRetained : Word64
deriving DecidableEq, Repr

/-- The guard that a window has ended. -/
def resetGuard : Predicate where
  source := .scratch0
  inverted := true

/-- A claim is charged to the budget of its window; the first claim behind a window opens the next. -/
def budgetInstructions (terms : PeriodBudget) : List Instruction :=
  [.when (.new .assertLessOrEqual .state0 .immediate .height terms.startHeight) .BEFORE_DEADLINE,
    .new .lessThan .scratch0 .height .state1 0,
    -- no window is opened on the recovery path
    .when (.new .move .scratch0 .one .zero 0) Predicate.BEFORE_DEADLINE.not,
    .when (.new .move .state0 .immediate .zero terms.budget) resetGuard,
    .when (.new .add .state1 .height .immediate terms.periodBlocks) resetGuard,
    .when (.new .add .scratch1 .fee .payout 0) .BEFORE_DEADLINE,
    .when (.new .assertLessOrEqual .state0 .scratch1 .state0 0) .BEFORE_DEADLINE,
    .when (.new .subtract .state0 .state0 .scratch1 0) .BEFORE_DEADLINE]

/-- A wallet that spends at most a budget in a window. -/
def periodBudgetWallet (spendingKey recoveryKey : Address) (payoutRecipient : Option Address)
    (terms : PeriodBudget) : Except ScheduleError ObjectOpening := do
  validateSchedule terms.startHeight terms.periodBlocks terms.recoverAt
  require (terms.budget ≠ 0) .emptyAmount
  require (terms.maxFee ≤ terms.budget) .feeExceedsBudget
  let opening := allowanceWallet spendingKey recoveryKey payoutRecipient terms.recoverAt.toNat terms.maxFee.toNat
    terms.maxPayout.toNat (max terms.minRetained.toNat terms.maxFee.toNat)
  let opening := { opening with state := packState (terms.budget, terms.startHeight + terms.periodBlocks) }
  return opening.install (budgetInstructions terms)

/-! ### Payment schedules -/

/-- The terms of a recurring payment. -/
structure RecurringPayment where
  firstDueHeight : Word64
  periodBlocks : Word64
  payment : Word64
  recoverAt : Word64
  maxFee : Word64
deriving DecidableEq, Repr

/-- A claim is due at a height; it pays the amount, counts it and moves the due height. -/
def scheduleInstructions (amount : Word64) (counter base : Operand) (period : Word64) : List Instruction :=
  [.when (.new .assertLessOrEqual .state0 .state1 .height 0) .BEFORE_DEADLINE,
    .when (.new .assertEqual .state0 .payout .immediate amount) .BEFORE_DEADLINE,
    .when (.new .add .state0 .state0 counter 0) .BEFORE_DEADLINE,
    .when (.new .add .state1 base .immediate period) .BEFORE_DEADLINE]

/-- The next payment is due a period after this one. -/
def recurringInstructions (terms : RecurringPayment) : List Instruction :=
  scheduleInstructions terms.payment .one .height terms.periodBlocks

/-- A wallet that pays one payee an amount in every period. -/
def recurringPayment (payer payee : Address) (terms : RecurringPayment) : Except ScheduleError ObjectOpening := do
  validateSchedule terms.firstDueHeight terms.periodBlocks terms.recoverAt
  require (terms.payment ≠ 0) .emptyAmount
  let opening := allowanceWallet payee payer (some payee) terms.recoverAt.toNat terms.maxFee.toNat
    terms.payment.toNat terms.maxFee.toNat
  let opening := { opening with state := packState (0, terms.firstDueHeight) }
  return opening.install (recurringInstructions terms)

/-- The terms of a vesting schedule. -/
structure TrancheVesting where
  firstUnlockHeight : Word64
  periodBlocks : Word64
  trancheAmount : Word64
  matureAt : Word64
  maxFee : Word64
deriving DecidableEq, Repr

/-- The next tranche is due a period after this one was. -/
def vestingInstructions (terms : TrancheVesting) : List Instruction :=
  scheduleInstructions terms.trancheAmount .payout .state1 terms.periodBlocks

/-- A wallet that pays its beneficiary a tranche in every period. -/
def trancheVesting (beneficiary : Address) (terms : TrancheVesting) : Except ScheduleError ObjectOpening := do
  validateSchedule terms.firstUnlockHeight terms.periodBlocks terms.matureAt
  require (terms.trancheAmount ≠ 0) .emptyAmount
  let opening := allowanceWallet beneficiary beneficiary (some beneficiary) terms.matureAt.toNat terms.maxFee.toNat
    terms.trancheAmount.toNat terms.maxFee.toNat
  let opening := { opening with state := packState (0, terms.firstUnlockHeight) }
  return opening.install (vestingInstructions terms)

/-! ### The programs -/

section
variable {c : Context} {regs : Registers}

lemma status_before {b : Bool} (h : c.beforeDeadline = b) (regs : Registers) :
    Predicate.BEFORE_DEADLINE.status c regs = some b := by
  rw [status_of_ofBool (b := c.beforeDeadline) rfl, h]
  exact congrArg some (Bool.bne_false _)

lemma status_after {b : Bool} (h : c.beforeDeadline = b) (regs : Registers) :
    Predicate.BEFORE_DEADLINE.not.status c regs = some !b := by
  rw [status_of_ofBool (b := c.beforeDeadline) rfl, h]
  exact congrArg some (Bool.bne_true _)

/-- The guard that a window has ended, by the register that holds whether it goes on. -/
theorem status_reset {b : Bool} (h : regs .scratch0 = .ofBool b) : resetGuard.status c regs = some !b := by
  rw [status_of_ofBool (p := resetGuard) (b := b) h]
  exact congrArg some (Bool.bne_true _)

lemma budget_recovery (terms : PeriodBudget) (hb : c.beforeDeadline = false) (s : Word64 × Word64) :
    execute (padProgram (budgetInstructions terms)) (packState s) c = .ok (packState s) := by
  have hbefore := status_before hb
  rw [execute_padProgram (Nat.le_of_ble_eq_true rfl), budgetInstructions, runInstructions_skip (hbefore _),
    runInstructions_step (status_always _ _) rfl, runInstructions_step (status_after hb _) rfl,
    runInstructions_skip (status_reset (b := true) rfl), runInstructions_skip (status_reset (b := true) rfl),
    runInstructions_skip (hbefore _), runInstructions_skip (hbefore _), runInstructions_skip (hbefore _)]
  rfl

variable {terms : PeriodBudget} (hb : c.beforeDeadline = true)
include hb

/-- The last three instructions charge the claim to the budget. -/
theorem budget_spend (terms : PeriodBudget) {step : ℕ} {out : Registers}
    (hrun : runInstructions c step ((budgetInstructions terms).drop 5) regs = .ok out) :
    c.fee.toNat + c.payout.toNat < U64 ∧ c.fee + c.payout ≤ regs .state0 ∧
      packState (out .state0, out .state1) = packState (regs .state0 - (c.fee + c.payout), regs .state1) := by
  have hbefore := status_before hb
  obtain ⟨_, hadd, hrun⟩ := runInstructions_ok (hbefore _) hrun
  obtain ⟨hfits, rfl⟩ := Opcode.apply_add.mp hadd
  obtain ⟨_, hassert, hrun⟩ := runInstructions_ok (hbefore _) hrun
  obtain ⟨hle, rfl⟩ := Opcode.apply_assertLessOrEqual.mp hassert
  obtain ⟨_, hsub, hrun⟩ := runInstructions_ok (hbefore _) hrun
  obtain ⟨-, rfl⟩ := Opcode.apply_subtract.mp hsub
  cases hrun
  exact ⟨hfits, hle, rfl⟩

/-- What a claim on a budget wallet does: it takes from the rest of the budget or opens a new window. -/
theorem budget_claim {s : Word64 × Word64} {next : Block128}
    (h : execute (padProgram (budgetInstructions terms)) (packState s) c = .ok next) :
    terms.startHeight ≤ c.height ∧ c.fee.toNat + c.payout.toNat < U64 ∧ ∃ s1 : Word64 × Word64,
      (if c.height < s.2 then s1 = s
        else c.height.toNat + terms.periodBlocks.toNat < U64 ∧ s1 = (terms.budget, c.height + terms.periodBlocks)) ∧
      c.fee + c.payout ≤ s1.1 ∧ next = packState (s1.1 - (c.fee + c.payout), s1.2) := by
  rw [execute_padProgram (Nat.le_of_ble_eq_true rfl)] at h
  cases hrun : runInstructions c 0 (budgetInstructions terms) (initialRegisters s) with
  | error e =>
    rw [hrun] at h
    cases h
  | ok regs =>
    rw [hrun] at h
    cases h
    obtain ⟨_, hfirst, hrun⟩ := runInstructions_ok (status_before hb _) hrun
    obtain ⟨hstart, rfl⟩ := Opcode.apply_assertLessOrEqual.mp hfirst
    obtain ⟨_, hlt, hrun⟩ := runInstructions_ok (status_always _ _) hrun
    cases hlt
    rw [Function.update_eq_self, runInstructions_skip (status_after hb _)] at hrun
    refine ⟨hstart, ?_⟩
    by_cases hin : c.height < s.2
    · have hgoes : Word64.ofBool (decide (c.height < s.2)) = .ofBool true := by rw [decide_eq_true hin]
      rw [runInstructions_skip (status_reset (b := true) hgoes), runInstructions_skip (status_reset (b := true) hgoes)]
        at hrun
      obtain ⟨hfits, hle, hnext⟩ := budget_spend hb terms hrun
      refine ⟨hfits, s, ?_, hle, hnext⟩
      rw [if_pos hin]
    · have hended : Word64.ofBool (decide (c.height < s.2)) = .ofBool false := by rw [decide_eq_false hin]
      obtain ⟨_, hmove, hrun⟩ := runInstructions_ok (status_reset (b := false) hended) hrun
      cases hmove
      obtain ⟨_, hopen, hrun⟩ := runInstructions_ok (status_reset (b := false) hended) hrun
      obtain ⟨hheight, rfl⟩ := Opcode.apply_add.mp hopen
      obtain ⟨hfits, hle, hnext⟩ := budget_spend hb terms hrun
      refine ⟨hfits, (terms.budget, c.height + terms.periodBlocks), ?_, hle, hnext⟩
      rw [if_neg hin]
      exact ⟨hheight, rfl⟩

omit hb

section
variable {amount period : Word64} {counter base : Operand} {s : Word64 × Word64}

lemma schedule_recovery (amount period : Word64) (counter base : Operand) (hb : c.beforeDeadline = false)
    (s : Word64 × Word64) :
    execute (padProgram (scheduleInstructions amount counter base period)) (packState s) c = .ok (packState s) := by
  have hbefore := status_before hb
  rw [execute_padProgram (Nat.le_of_ble_eq_true rfl), scheduleInstructions, runInstructions_skip (hbefore _),
    runInstructions_skip (hbefore _), runInstructions_skip (hbefore _), runInstructions_skip (hbefore _)]
  rfl

variable {x y : Word64} (hb : c.beforeDeadline = true) (hcounter : c.operand (initialRegisters s) 0 counter = x)
  (hbase : ∀ v, c.operand (Function.update (initialRegisters s) .state0 v) period base = y)
include hb hcounter hbase

/-- A claim has to be due and to pay the amount, and its two additions have to fit. -/
theorem execute_schedule :
    execute (padProgram (scheduleInstructions amount counter base period)) (packState s) c = (do
      require (s.2 ≤ c.height) (.assertion 0)
      require (c.payout = amount) (.assertion 1)
      require (s.1.toNat + x.toNat < U64) (.overflow 2)
      require (y.toNat + period.toNat < U64) (.overflow 3)
      return packState (s.1 + x, y + period)) := by
  have hbefore := status_before hb
  rw [execute_padProgram (Nat.le_of_ble_eq_true rfl), scheduleInstructions,
    runInstructions_assertLessOrEqual (hbefore _) rfl, runInstructions_assertEqual (hbefore _) rfl,
    runInstructions_add (hbefore _) rfl, runInstructions_add (hbefore _) rfl]
  simp only [Instruction.when, Instruction.new, hcounter, hbase, except_map_bind]
  rfl

lemma schedule_accepts (hdue : s.2 ≤ c.height) (hpayout : c.payout = amount) (h1 : s.1.toNat + x.toNat < U64)
    (h2 : y.toNat + period.toNat < U64) :
    execute (padProgram (scheduleInstructions amount counter base period)) (packState s) c =
      .ok (packState (s.1 + x, y + period)) := by
  rw [execute_schedule hb hcounter hbase, require_bind hdue, require_bind hpayout, require_bind h1, require_bind h2]
  rfl

/-- A claim that fits does not overflow, accepted or not. -/
theorem schedule_no_overflow
    (hfits : s.2 ≤ c.height → c.payout = amount → s.1.toNat + x.toNat < U64 ∧ y.toNat + period.toNat < U64) (step : ℕ) :
    execute (padProgram (scheduleInstructions amount counter base period)) (packState s) c ≠ .error (.overflow step) := by
  intro herror
  by_cases hdue : s.2 ≤ c.height
  · by_cases hpayout : c.payout = amount
    · obtain ⟨h1, h2⟩ := hfits hdue hpayout
      rw [schedule_accepts hb hcounter hbase hdue hpayout h1 h2] at herror
      cases herror
    · rw [execute_schedule hb hcounter hbase, require_bind hdue, require, if_neg hpayout] at herror
      cases herror
  · rw [execute_schedule hb hcounter hbase, require, if_neg hdue] at herror
    cases herror

end

end

end Noid.Tx
