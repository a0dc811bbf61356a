import Noid.Tx.Applications

/-! # Runs of scheduled wallets

A run of calls of a scheduled wallet is a list of claims before the deadline, possibly followed by one closing call.  The
claims on a budget wallet form a run of the limiter; the closing call can add its fee.  A recurring payment and a vesting
schedule keep an invariant of their claims and the two state registers. -/

namespace Noid.Tx

open Noid.Lib List

/-! ### Claims of a run -/

/-- The continuing calls. -/
def claims (steps : List ObjectStep) : List ObjectStep := steps.filter fun s => !s.page.body.isTerminal

lemma claims_of_open {steps : List ObjectStep} (h : ∀ s ∈ steps, s.page.body.isTerminal = false) :
    claims steps = steps := filter_eq_self.mpr fun s hs => by simp [h s hs]

/-- The closing call, if any, is the last one. -/
theorem claims_append {steps : List ObjectStep} {s : ObjectStep} (h : ∀ s ∈ steps, s.page.body.isTerminal = false) :
    claims (steps ++ [s]) = if s.page.body.isTerminal then steps else steps ++ [s] := by
  rw [claims, filter_append, ← claims, claims_of_open h]
  cases hs : s.page.body.isTerminal <;> simp [hs]

/-! ### Scheduled wallets -/

structure ScheduleOk (start period deadline : Word64) : Prop where
  period_pos : 0 < period.toNat
  start_lt : start.toNat < deadline.toNat
  fits : deadline.toNat - 1 + period.toNat < U64

variable {deadline : Word64} {o : ObjectOpening}

lemma validateSchedule_eq_ok {start period : Word64} (h : validateSchedule start period deadline = .ok ()) :
    ScheduleOk start period deadline := by
  simp only [validateSchedule, ok_rules] at h
  obtain ⟨hperiod, hstart, hfits⟩ := h
  have hlt : start.toNat < deadline.toNat := hstart
  have hone : (deadline - 1).toNat = deadline.toNat - 1 := by
    have h1 : (1 : Word64) ≤ deadline := by
      change (1 : Word64).toNat ≤ deadline.toNat
      have : (1 : Word64).toNat = 1 := rfl
      omega
    exact BitVec.toNat_sub_of_le h1
  refine ⟨?_, hlt, ?_⟩
  · by_contra hzero
    exact hperiod (BitVec.eq_of_toNat_eq (by simpa using hzero))
  · rw [Word64.checkedAdd, hone] at hfits
    by_contra hlarge
    rw [if_neg hlarge] at hfits
    cases hfits

/-- A program that does nothing from the deadline on, with claims allowed before the deadline and closing calls from
it on. -/
structure Scheduled (o : ObjectOpening) (deadline : Word64) (instructions : List Instruction)
    (start : Word64 × Word64) : Prop where
  deadline : o.deadline = deadline.toNat
  program : o.program = padProgram instructions
  state : o.state = packState start
  valid : o.validate = .ok ()
  permits : ∀ before terminal, o.rules.permits before terminal = true → terminal = !before
  recovery : ∀ c : Context, c.beforeDeadline = false → ∀ s, execute (padProgram instructions) (packState s) c = .ok (packState s)

lemma allowanceWallet_permits (a b : Address) (r : Option Address) (d f p m : ℕ) (before terminal : Bool)
    (h : (allowanceWallet a b r d f p m).rules.permits before terminal = true) : terminal = !before := by
  have hmodes : ∀ anyone before terminal : Bool,
      (CLAIM_CONTINUE ||| RECOVERY_CLOSE ||| if anyone then ANY_PAYOUT_RECIPIENT else 0) &&&
        ObjectRules.modeBit before terminal ≠ 0 → terminal = !before := by decide
  exact hmodes r.isNone before terminal (of_decide_eq_true h)

lemma allowanceWallet_validate (a b : Address) (r : Option Address) (d f p m : ℕ) :
    (allowanceWallet a b r d f p m).rules.validate = .ok () := by
  have hmodes : ∀ anyone : Bool,
      (CLAIM_CONTINUE ||| RECOVERY_CLOSE ||| if anyone then ANY_PAYOUT_RECIPIENT else 0) &&& ~~~VALID_MODES = 0 := by
    decide
  exact require_of _ (hmodes r.isNone)

lemma Scheduled.of_install {a b : Address} {r : Option Address} {f p m : ℕ} {start : Word64 × Word64}
    {instructions : List Instruction} (hlen : instructions.length ≤ PROGRAM_STEPS)
    (hrecovery : ∀ c : Context, c.beforeDeadline = false →
      ∀ s, execute (padProgram instructions) (packState s) c = .ok (packState s)) :
    Scheduled (ObjectOpening.install { allowanceWallet a b r deadline.toNat f p m with state := packState start }
      instructions) deadline instructions start where
  deadline := rfl
  program := rfl
  state := rfl
  valid := by
    refine (bind_of_ok (allowanceWallet_validate a b r deadline.toNat f p m)).trans (forM_eq_ok.mpr fun x hx => ?_)
    exact require_of _ (fromFields_isSome_of_toList (padProgram_toList hlen) x hx)
  permits := allowanceWallet_permits a b r deadline.toNat f p m
  recovery := hrecovery

/-- One more claim after a list of claims, on a wallet with a given state. -/
structure Claim (o : ObjectOpening) (deadline : Word64) (instructions : List Instruction) (H : ObjectHash) (amount : ℕ)
    (steps : List ObjectStep) (s : ObjectStep) (state next : Word64 × Word64) : Prop where
  held : heldAmount amount steps ≤ amount
  ok : ObjectOpening.CallOk H (o.successor (packState state)) s.page s.height s.outcome
  order : ∀ s' ∈ steps, s'.height ≤ s.height
  before : s.height < deadline.toNat
  isOpen : s.page.body.isTerminal = false
  spends : s.page.body.inputs[0].amount = heldAmount amount steps
  outcome : s.outcome.next = packState next
  executed : execute (padProgram instructions) (packState state) (.fromBody s.page.body s.height deadline.toNat) =
    .ok (packState next)

lemma toNat_word {n : ℕ} (h : n < U64) : (BitVec.ofNat 64 n).toNat = n := by
  exact Nat.mod_eq_of_lt h

lemma toNat_add_word {a b : Word64} (h : a.toNat + b.toNat < U64) : (a + b).toNat = a.toNat + b.toNat := by
  exact Nat.mod_eq_of_lt h

lemma packState_injective {s s' : Word64 × Word64} (h : packState s = packState s') : s = s' := by
  rw [← unpackState_packState s, h, unpackState_packState]

namespace Claim

variable {o : ObjectOpening} {deadline : Word64} {instructions : List Instruction} {H : ObjectHash} {amount : ℕ}
  {steps : List ObjectStep} {s : ObjectStep} {state next : Word64 × Word64}

section
variable (h : Claim o deadline instructions H amount steps s state next)
include h

lemma balance :
    heldAmount amount steps = s.page.body.outputs[0].amount + s.page.body.outputs[1].amount + s.page.body.fee :=
  h.spends.symm.trans h.ok.balance

lemma height_eq : (Context.fromBody s.page.body s.height deadline.toNat).height.toNat = s.height :=
  toNat_word (h.before.trans deadline.isLt)

lemma fee_eq (hamount : amount < U64) :
    (Context.fromBody s.page.body s.height deadline.toNat).fee.toNat = s.page.body.fee := by
  have hbalance := h.balance
  have hheld := h.held
  exact toNat_word (by omega)

lemma payout_eq (hamount : amount < U64) :
    (Context.fromBody s.page.body s.height deadline.toNat).payout.toNat = s.page.body.outputs[1].amount := by
  have hbalance := h.balance
  have hheld := h.held
  exact toNat_word (by omega)

end

end Claim

namespace Scheduled

variable {o : ObjectOpening} {deadline : Word64} {instructions : List Instruction} {start : Word64 × Word64}
  {H : ObjectHash} {hashPages : List TxPage → Digest} {amount : ℕ} {steps : List ObjectStep}

section
variable (h : Scheduled o deadline instructions start)
include h

lemma execute_eq (state : Word64 × Word64) (body : TxBody) (height : ℕ) :
    (o.successor (packState state)).execute body height =
      (execute (padProgram instructions) (packState state) (.fromBody body height deadline.toNat)).mapError .program := by
  have hvalid : (o.successor (packState state)).validate = .ok () := h.valid
  rw [ObjectOpening.execute, bind_of_ok hvalid]
  change (Tx.execute o.program _ (.fromBody body height o.deadline)).mapError _ = _
  rw [h.program, h.deadline]
  rfl

/-- From the deadline on every call passes the program. -/
theorem execute_recovery (state : Word64 × Word64) (body : TxBody) {height : ℕ} (hheight : deadline.toNat ≤ height) :
    (o.successor (packState state)).execute body height = .ok (packState state) := by
  rw [h.execute_eq, h.recovery _ (decide_eq_false (not_lt.mpr hheight))]
  rfl

/-- Calls before the deadline are claims, calls from the deadline on close the wallet. -/
theorem isTerminal (hrun : ObjectRun H hashPages o amount steps)
    {s : ObjectStep} (hs : s ∈ steps) : s.page.body.isTerminal = decide (deadline.toNat ≤ s.height) := by
  have hok := hrun.ok hs
  have hpermits := hok.permitted
  rw [hrun.opening_eq hs] at hpermits
  have hterminal := h.permits _ _ hpermits
  rw [hok.terminal] at hterminal
  change _ = !decide (s.height < o.deadline) at hterminal
  rw [hterminal, h.deadline, ← decide_not, decide_eq_decide, not_lt]

lemma run (hrun : ObjectRun H hashPages o amount steps)
    {P : List ObjectStep → Word64 × Word64 → Prop} (hinit : P [] start)
    (hclaim : ∀ steps s state next, Claim o deadline instructions H amount steps s state next → P steps state →
      P (steps ++ [s]) next) :
    ∃ state, currentOpening o steps = o.successor (packState state) ∧ P (claims steps) state := by
  induction hrun with
  | nil =>
    refine ⟨start, ?_, hinit⟩
    rw [← h.state]
    rfl
  | @snoc steps s hrun isOpen order opening spends accepted ih =>
    obtain ⟨state, hstate, hP⟩ := ih
    have hall : ObjectRun H hashPages o amount (steps ++ [s]) := .snoc hrun isOpen order opening spends accepted
    have hterminal := h.isTerminal hall (s := s) (by simp)
    have hnext := (hall.ok (s := s) (by simp)).next
    rw [opening, hstate] at hnext
    rw [ObjectRun.currentOpening_append, opening, hstate]
    rw [claims_of_open isOpen] at hP
    by_cases hheight : deadline.toNat ≤ s.height
    · -- the closing call keeps the state
      rw [h.execute_recovery state _ hheight, Except.ok.injEq] at hnext
      refine ⟨state, by rw [← hnext]; rfl, ?_⟩
      rwa [claims_append isOpen, hterminal, decide_eq_true hheight]
    · have hopen := hterminal.trans (decide_eq_false hheight)
      rw [h.execute_eq, mapError_eq_ok, ← packState_unpackState s.outcome.next] at hnext
      refine ⟨unpackState s.outcome.next, by rw [packState_unpackState]; rfl, ?_⟩
      rw [claims_append isOpen, hopen]
      refine hclaim steps s state _ ⟨hrun.heldAmount_le, ?_, order, not_le.mp hheight, hopen, spends,
        (packState_unpackState _).symm, hnext⟩ hP
      rw [← hstate, ← opening]
      exact hall.ok (by simp)

end

end Scheduled

/-! ### Budget wallets -/

/-- What a call takes from the budget. -/
def ObjectStep.debit (s : ObjectStep) : ℕ := s.page.body.fee + s.page.body.payoutOutput.amount

/-- What the calls at some heights take from the budget. -/
def debited (p : ℕ → Bool) (steps : List ObjectStep) : ℕ := ((steps.filter fun s => p s.height).map (·.debit)).sum

/-- Calls as spends, each in the window that the wallet's state shows after it. -/
def budgetSpends (steps : List ObjectStep) : List Spend :=
  steps.map fun s => { time := s.height, amount := s.debit, window := (unpackState s.outcome.next).2.toNat }

/-- The ends of the windows: the first one, and those that the state shows after a claim. -/
def budgetWindows (terms : PeriodBudget) (steps : List ObjectStep) : List ℕ :=
  windowEnds terms.periodBlocks.toNat terms.startHeight.toNat (budgetSpends (claims steps))

lemma debited_eq_spentAt (p : ℕ → Bool) (steps : List ObjectStep) : debited p steps = spentAt p (budgetSpends steps) := by
  rw [spentAt, budgetSpends, filter_map, map_map]
  rfl

lemma periodBudgetWallet_eq_ok {spendingKey recoveryKey : Address} {payoutRecipient : Option Address}
    {terms : PeriodBudget}
    (h : periodBudgetWallet spendingKey recoveryKey payoutRecipient terms = .ok o) :
    ScheduleOk terms.startHeight terms.periodBlocks terms.recoverAt ∧
      Scheduled o terms.recoverAt (budgetInstructions terms) (terms.budget, terms.startHeight + terms.periodBlocks) ∧
        o.rules.maxFee = terms.maxFee.toNat := by
  simp only [periodBudgetWallet, ok_rules] at h
  obtain ⟨⟨⟩, hschedule, -, -, rfl⟩ := h
  exact ⟨validateSchedule_eq_ok hschedule,
    .of_install (Nat.le_of_ble_eq_true rfl) fun _ hb s => budget_recovery terms hb s, rfl⟩

section
variable {o : ObjectOpening} {terms : PeriodBudget} {H : ObjectHash} {hashPages : List TxPage → Digest} {amount : ℕ}
  {steps : List ObjectStep}

/-- **The claims on a budget wallet are spends of a limiter.** -/
theorem budget_run (hschedule : ScheduleOk terms.startHeight terms.periodBlocks terms.recoverAt)
    (hwallet : Scheduled o terms.recoverAt (budgetInstructions terms)
      (terms.budget, terms.startHeight + terms.periodBlocks))
    (hamount : amount < U64) (hrun : ObjectRun H hashPages o amount steps) :
    ∃ state : Word64 × Word64, currentOpening o steps = o.successor (packState state) ∧
      WindowRun terms.budget.toNat terms.periodBlocks.toNat terms.startHeight.toNat (budgetSpends (claims steps))
        { remaining := state.1.toNat, windowEnd := state.2.toNat } := by
  have hfits := hschedule.fits
  refine hwallet.run hrun (P := fun l state => WindowRun terms.budget.toNat terms.periodBlocks.toNat
    terms.startHeight.toNat (budgetSpends l) { remaining := state.1.toNat, windowEnd := state.2.toNat }) ?_ ?_
  · have hstart := hschedule.start_lt
    rw [toNat_add_word (by omega)]
    exact .start
  · intro steps s state next hclaim hwindow
    obtain ⟨hstart, hsum, s1, hs1, hle, hpack⟩ := budget_claim (decide_eq_true hclaim.before) hclaim.executed
    have hheight := hclaim.height_eq
    -- the amounts and heights of the program are those of the call
    have hdebit := toNat_add_word hsum
    rw [hclaim.fee_eq hamount, hclaim.payout_eq hamount] at hdebit
    have hle := BitVec.le_def.mp hle
    have hstart := BitVec.le_def.mp hstart
    have hremaining := BitVec.toNat_sub_of_le hle
    rw [hheight] at hstart
    rw [hdebit] at hle
    obtain rfl := packState_injective hpack
    rw [hdebit] at hremaining
    have hspends : budgetSpends (steps ++ [s]) = budgetSpends steps ++
        [{ time := s.height, amount := s.debit, window := s1.2.toNat }] := by
      simp [budgetSpends, hclaim.outcome, unpackState_packState]
    have horder : ∀ e ∈ budgetSpends steps, e.time ≤ s.height := by
      intro e he
      obtain ⟨s', hs', rfl⟩ := mem_map.mp he
      exact hclaim.order s' hs'
    have hgranted : WindowState.charge terms.budget.toNat terms.periodBlocks.toNat
        { remaining := state.1.toNat, windowEnd := state.2.toNat } s.height s.debit =
          some { remaining := s1.1.toNat - s.debit, windowEnd := s1.2.toNat } := by
      rw [WindowState.charge]
      split_ifs at hs1 with hin
      · subst hs1
        have hin : s.height < s1.2.toNat := by
          rw [← hheight]
          exact hin
        rw [if_pos hin]
        exact if_pos hle
      · obtain ⟨hopened, rfl⟩ := hs1
        have hout : ¬s.height < state.2.toNat := by
          rw [← hheight]
          exact hin
        rw [if_neg hout, toNat_add_word hopened, hheight]
        exact if_pos hle
    have hrun := WindowRun.spend hwindow horder hstart hgranted
    rw [← hspends] at hrun
    rwa [hremaining]

/-- The closing call adds at most its fee. -/
theorem debited_le_claims (hrun : ObjectRun H hashPages o amount steps) (p : ℕ → Bool) :
    debited p steps ≤ debited p (claims steps) + o.rules.maxFee := by
  cases hrun with
  | nil => exact Nat.zero_le _
  | @snoc steps s hrun isOpen order opening spends accepted =>
    cases hterminal : s.page.body.isTerminal with
    | false =>
      rw [claims_append isOpen, hterminal]
      exact Nat.le_add_right _ _
    | true =>
      have hok := ObjectOpening.checkCall_eq_ok accepted
      have hdummy := hok.outputs_closing (hok.terminal.trans hterminal)
      have hfee := hok.fee
      rw [opening, hrun.currentOpening_eq] at hfee
      have hdebit : s.debit ≤ o.rules.maxFee := by
        rw [ObjectStep.debit, TxBody.payoutOutput, hdummy]
        exact hfee
      rw [claims_append isOpen, hterminal]
      simp only [debited, filter_append, map_append, sum_append]
      by_cases hp : p s.height = true
      · simpa [hp] using hdebit
      · simp [hp]

/-- **The limits of a budget wallet**: one budget in a window and two in a period, plus the fee of the closing call,
which is not charged; nothing before the start, and no check of the program from the recovery height on. -/
theorem budget_wallet_bounds {spendingKey recoveryKey : Address} {payoutRecipient : Option Address}
    (hwallet : periodBudgetWallet spendingKey recoveryKey payoutRecipient terms = .ok o) (hamount : amount < U64)
    (hrun : ObjectRun H hashPages o amount steps) :
    (∀ s ∈ steps, terms.startHeight.toNat ≤ s.height) ∧ (∀ w ∈ budgetWindows terms steps,
        debited (inWindow terms.periodBlocks.toNat w) (claims steps) ≤ terms.budget.toNat ∧
          debited (inWindow terms.periodBlocks.toNat w) steps ≤ terms.budget.toNat + terms.maxFee.toNat) ∧
      (∀ first, debited (inInterval terms.periodBlocks.toNat first) (claims steps) ≤ 2 * terms.budget.toNat ∧
        debited (inInterval terms.periodBlocks.toNat first) steps ≤ 2 * terms.budget.toNat + terms.maxFee.toNat) ∧
      (∀ s ∈ steps, s.page.body.isTerminal = decide (terms.recoverAt.toNat ≤ s.height)) ∧
      ∀ body height, terms.recoverAt.toNat ≤ height →
        (currentOpening o steps).execute body height = .ok (currentOpening o steps).state := by
  obtain ⟨hschedule, hscheduled, hfee⟩ := periodBudgetWallet_eq_ok hwallet
  obtain ⟨state, hstate, hwindow⟩ := budget_run hschedule hscheduled hamount hrun
  have hclosing := debited_le_claims hrun
  rw [hfee] at hclosing
  refine ⟨?_, ?_, ?_, fun s hs => hscheduled.isTerminal hrun hs, ?_⟩
  · intro s hs
    have hterminal := hscheduled.isTerminal hrun hs
    by_cases hheight : terms.recoverAt.toNat ≤ s.height
    · exact hschedule.start_lt.le.trans hheight
    · have hclaim : s ∈ claims steps := mem_filter.mpr ⟨hs, by rw [hterminal, decide_eq_false hheight]; rfl⟩
      exact hwindow.start_le _ (mem_map_of_mem hclaim)
  · intro w hw
    have hle := hwindow.window_le hschedule.period_pos hw
    rw [← debited_eq_spentAt] at hle
    exact ⟨hle, (hclosing _).trans (Nat.add_le_add_right hle _)⟩
  · intro first
    have hle := hwindow.interval_le hschedule.period_pos first
    rw [← debited_eq_spentAt] at hle
    exact ⟨hle, (hclosing _).trans (Nat.add_le_add_right hle _)⟩
  · intro body height hheight
    rw [hstate]
    exact hscheduled.execute_recovery state body hheight

end

section

open ObjectChain

/-- Terms with a recovery height just after the end of the first window. -/
def earlyTerms : PeriodBudget where
  startHeight := 10
  periodBlocks := 100
  budget := 20
  recoverAt := 111
  maxFee := 5
  maxPayout := 100
  minRetained := 0

def earlyWallet : ObjectOpening :=
  ObjectOpening.install { allowanceWallet 1 2 (some 3) 111 5 100 5 with state := packState (20, 110) }
    (budgetInstructions earlyTerms)

/-- A claim of the whole budget in a state, which leaves another state. -/
def budgetClaim (coin height : ℕ) (state next : Word64 × Word64) : ObjectStep :=
  { opening := earlyWallet.successor (packState state)
    page := objectCall ((earlyWallet.successor (packState state)).root stateHash) (coin + 1) (1000 - 10 * coin) 5
      ⟨coin + 2, 980 - 10 * coin, (earlyWallet.successor (packState next)).root stateHash⟩ ⟨coin + 3, 15, 3⟩
      (outputBitmapBit 1)
    height := height, outcome := { next := packState next, authority := 1, terminal := false } }

/-- Claims of the whole budget at both sides of a window's end, then the close. -/
def earlySteps : List ObjectStep :=
  [budgetClaim 0 109 (20, 110) (0, 110), budgetClaim 2 110 (0, 110) (0, 210),
   { opening := earlyWallet.successor (packState (0, 210))
     page := objectCall ((earlyWallet.successor (packState (0, 210))).root stateHash) 4 960 5 ⟨6, 955, 2⟩ .dummy
       PAGED_SPEND_TERMINAL_BIT
     height := 111, outcome := { next := packState (0, 210), authority := 2, terminal := true } }]

lemma earlyWallet_eq : periodBudgetWallet 1 2 (some 3) earlyTerms = .ok earlyWallet := by decide +kernel

lemma earlySteps_run : ObjectRun stateHash (fun _ => 0) earlyWallet 1000 earlySteps := by
  have hfirst : ObjectRun stateHash (fun _ => 0) earlyWallet 1000 ([] ++ [earlySteps[0]]) :=
    .snoc .nil (by simp) (by simp) rfl rfl (by decide +kernel)
  have hsecond : ObjectRun stateHash (fun _ => 0) earlyWallet 1000 ([] ++ [earlySteps[0]] ++ [earlySteps[1]]) :=
    .snoc hfirst (by decide +kernel) (by decide +kernel) rfl rfl (by decide +kernel)
  exact .snoc hsecond (by decide +kernel) (by decide +kernel) rfl rfl (by decide +kernel)

/-- The fee of the closing call exceeds one budget in a window and two in a period. -/
theorem earlySteps_exceed : periodBudgetWallet 1 2 (some 3) earlyTerms = .ok earlyWallet ∧
    ObjectRun stateHash (fun _ => 0) earlyWallet 1000 earlySteps ∧ 210 ∈ budgetWindows earlyTerms earlySteps ∧
      earlyTerms.budget.toNat < debited (inWindow earlyTerms.periodBlocks.toNat 210) earlySteps ∧
      2 * earlyTerms.budget.toNat < debited (inInterval earlyTerms.periodBlocks.toNat 109) earlySteps :=
  ⟨earlyWallet_eq, earlySteps_run, by decide +kernel, by decide +kernel, by decide +kernel⟩

theorem earlySteps_bounds : debited (inWindow earlyTerms.periodBlocks.toNat 210) (claims earlySteps) ≤ 20 ∧
    debited (inInterval earlyTerms.periodBlocks.toNat 109) earlySteps ≤ 2 * 20 + 5 :=
  have h := budget_wallet_bounds earlyWallet_eq (by decide) earlySteps_run
  ⟨(h.2.1 210 (by decide +kernel)).1, (h.2.2.1 109).2⟩

end

/-! ### Payment schedules -/

lemma Scheduled.schedule_fits {amount period : Word64} {counter base : Operand}
    {start state : Word64 × Word64} (h : Scheduled o deadline (scheduleInstructions amount counter base period) start)
    {body : TxBody} {x y : ℕ → Word64}
    (hcounter : ∀ height,
      (Context.fromBody body height deadline.toNat).operand (initialRegisters state) 0 counter = x height)
    (hbase : ∀ height v, (Context.fromBody body height deadline.toNat).operand
      (Function.update (initialRegisters state) .state0 v) period base = y height)
    (hfits : ∀ height < deadline.toNat, state.2.toNat ≤ height → BitVec.ofNat 64 body.outputs[1].amount = amount →
      state.1.toNat + (x height).toNat < U64 ∧ (y height).toNat + period.toNat < U64) (height step : ℕ) :
    (o.successor (packState state)).execute body height ≠ .error (.program (.overflow step)) := by
  by_cases hheight : height < deadline.toNat
  · intro herror
    rw [h.execute_eq] at herror
    cases hrun : execute (padProgram (scheduleInstructions amount counter base period)) (packState state)
        (.fromBody body height deadline.toNat) with
    | ok next =>
      rw [hrun] at herror
      cases herror
    | error e =>
      rw [hrun] at herror
      cases herror
      refine schedule_no_overflow (decide_eq_true hheight) (hcounter height) (hbase height) ?_ step hrun
      intro hdue hpayout
      have hdue := BitVec.le_def.mp hdue
      rw [show (Context.fromBody body height deadline.toNat).height.toNat = height from
        toNat_word (hheight.trans deadline.isLt)] at hdue
      exact hfits height hheight hdue hpayout
  · intro herror
    rw [h.execute_recovery state body (not_lt.mp hheight)] at herror
    cases herror

/-- A closed wallet has no more than it had before. -/
theorem ObjectRun.heldAmount_le_claims {H : ObjectHash} {hashPages : List TxPage → Digest}
    {amount : ℕ} {steps : List ObjectStep} (hrun : ObjectRun H hashPages o amount steps) :
    heldAmount amount steps ≤ heldAmount amount (claims steps) := by
  cases hrun with
  | nil => exact le_rfl
  | @snoc steps s hrun isOpen order opening spends accepted =>
    cases hterminal : s.page.body.isTerminal with
    | false => rw [claims_append isOpen, hterminal]; rfl
    | true =>
      have hbalance := (ObjectOpening.checkCall_eq_ok accepted).balance
      rw [claims_append isOpen, hterminal, if_pos rfl, heldAmount_append, ← spends]
      omega

/-- What a recurring payment keeps along its claims. -/
structure RecurringInv (payee : Address) (terms : RecurringPayment) (steps : List ObjectStep)
    (state : Word64 × Word64) : Prop where
  counted : state.1.toNat = steps.length
  due : terms.firstDueHeight.toNat + steps.length * terms.periodBlocks.toNat ≤ state.2.toNat
  spaced : steps.Pairwise fun s s' => s.height + terms.periodBlocks.toNat ≤ s'.height
  before : ∀ s ∈ steps, s.height + terms.periodBlocks.toNat ≤ state.2.toNat
  started : ∀ s ∈ steps, terms.firstDueHeight.toNat ≤ s.height
  paid : ∀ s ∈ steps, s.page.body.outputs[1].amount = terms.payment.toNat ∧ s.page.body.outputIsLive 1 ∧
    s.page.body.outputs[1].owner = payee

/-- What a recurring payment promises along a run. -/
structure RecurringOk (payee : Address) (terms : RecurringPayment) (o : ObjectOpening) (amount : ℕ)
    (steps : List ObjectStep) : Prop where
  spaced : (claims steps).Pairwise fun s s' => s.height + terms.periodBlocks.toNat ≤ s'.height
  started : ∀ s ∈ claims steps, terms.firstDueHeight.toNat ≤ s.height
  paid : ∀ s ∈ claims steps, s.page.body.outputs[1].amount = terms.payment.toNat ∧ s.page.body.outputIsLive 1 ∧
    s.page.body.outputs[1].owner = payee
  fits : ∀ body height step, body.outputs[1].amount ≤ heldAmount amount steps →
    (currentOpening o steps).execute body height ≠ .error (.program (.overflow step))
  recovery : ∀ body height, terms.recoverAt.toNat ≤ height →
    (currentOpening o steps).execute body height = .ok (currentOpening o steps).state

/-- What a vesting schedule keeps along its claims. -/
structure VestingInv (terms : TrancheVesting) (amount : ℕ) (steps : List ObjectStep) (state : Word64 × Word64) : Prop where
  released : state.1.toNat = steps.length * terms.trancheAmount.toNat
  due : state.2.toNat = terms.firstUnlockHeight.toNat + steps.length * terms.periodBlocks.toNat
  held : steps.length * terms.trancheAmount.toNat + heldAmount amount steps ≤ amount
  paid : ∀ s ∈ steps, s.page.body.outputs[1].amount = terms.trancheAmount.toNat
  unlocked : ∀ height n, (steps.filter fun s => s.height ≤ height).length = n + 1 →
    terms.firstUnlockHeight.toNat + n * terms.periodBlocks.toNat ≤ height

/-- What calls up to a height paid out. -/
def paidBy (height : ℕ) (steps : List ObjectStep) : ℕ :=
  ((steps.filter fun s => s.height ≤ height).map fun s => s.page.body.payoutOutput.amount).sum

def TrancheVesting.dueTranches (terms : TrancheVesting) (height : ℕ) : ℕ :=
  if height < terms.firstUnlockHeight.toNat then 0
  else (height - terms.firstUnlockHeight.toNat) / terms.periodBlocks.toNat + 1

/-- What a vesting schedule promises along a run. -/
structure VestingOk (terms : TrancheVesting) (o : ObjectOpening) (amount : ℕ) (steps : List ObjectStep) : Prop where
  released : ∀ height < terms.matureAt.toNat,
    paidBy height steps ≤ terms.trancheAmount.toNat * terms.dueTranches height
  claimable : ∀ body height, (claims steps).length + 1 ≤ terms.dueTranches height →
    body.outputs[1].amount = terms.trancheAmount.toNat → body.outputs[1].amount ≤ heldAmount amount steps →
      ∃ next, (currentOpening o steps).execute body height = .ok next
  fits : ∀ body height step, body.outputs[1].amount ≤ heldAmount amount steps →
    (currentOpening o steps).execute body height ≠ .error (.program (.overflow step))
  recovery : ∀ body height, terms.matureAt.toNat ≤ height →
    (currentOpening o steps).execute body height = .ok (currentOpening o steps).state

lemma recurringPayment_eq_ok {payer payee : Address} {terms : RecurringPayment}
    (h : recurringPayment payer payee terms = .ok o) :
    ScheduleOk terms.firstDueHeight terms.periodBlocks terms.recoverAt ∧
      Scheduled o terms.recoverAt (recurringInstructions terms) (0, terms.firstDueHeight) ∧ terms.payment ≠ 0 ∧
        o.claimRecipient = payee ∧ o.rules.modes &&& ANY_PAYOUT_RECIPIENT = 0 := by
  simp only [recurringPayment, ok_rules] at h
  obtain ⟨⟨⟩, hschedule, hpayment, rfl⟩ := h
  refine ⟨validateSchedule_eq_ok hschedule, .of_install (Nat.le_of_ble_eq_true rfl) fun _ hb s => ?_, hpayment, rfl, ?_⟩
  · exact schedule_recovery _ _ _ _ hb s
  · change (CLAIM_CONTINUE ||| RECOVERY_CLOSE ||| 0) &&& ANY_PAYOUT_RECIPIENT = 0
    decide

lemma trancheVesting_eq_ok {beneficiary : Address} {terms : TrancheVesting}
    (h : trancheVesting beneficiary terms = .ok o) :
    ScheduleOk terms.firstUnlockHeight terms.periodBlocks terms.matureAt ∧
      Scheduled o terms.matureAt (vestingInstructions terms) (0, terms.firstUnlockHeight) := by
  simp only [trancheVesting, ok_rules] at h
  obtain ⟨⟨⟩, hschedule, -, rfl⟩ := h
  exact ⟨validateSchedule_eq_ok hschedule,
    .of_install (Nat.le_of_ble_eq_true rfl) fun _ hb s => schedule_recovery _ _ _ _ hb s⟩

section
variable {o : ObjectOpening} {H : ObjectHash} {hashPages : List TxPage → Digest} {amount : ℕ} {steps : List ObjectStep}
variable {state : Word64 × Word64} {terms : TrancheVesting}

lemma Claim.payee {deadline : Word64} {instructions : List Instruction} {s : ObjectStep} {next : Word64 × Word64}
    (h : Claim o deadline instructions H amount steps s state next) (hdeadline : o.deadline = deadline.toNat)
    (hmodes : o.rules.modes &&& ANY_PAYOUT_RECIPIENT = 0) (hpos : 0 < s.page.body.outputs[1].amount) :
    s.page.body.outputIsLive 1 ∧ s.page.body.outputs[1].owner = o.claimRecipient := by
  have hlive : s.page.body.outputIsLive 1 := by
    rcases (validatePageShape_eq_ok.mp h.ok.shape).2.2.2 1 (by decide) with hlive | hdummy
    · exact hlive
    · rw [show s.page.body.outputs[1] = .dummy from hdummy] at hpos
      cases hpos
  have howner := h.ok.payee (h.ok.terminal.trans h.isOpen) hlive hmodes
  refine ⟨hlive, howner.trans ?_⟩
  have hbefore : s.height < o.deadline := by
    rw [hdeadline]
    exact h.before
  exact if_pos hbefore

lemma Claim.schedule {deadline value period : Word64} {counter base : Operand} {s : ObjectStep}
    {next : Word64 × Word64} {x y : Word64}
    (h : Claim o deadline (scheduleInstructions value counter base period) H amount steps s state next)
    (hamount : amount < U64)
    (hcounter : (Context.fromBody s.page.body s.height deadline.toNat).operand (initialRegisters state) 0 counter = x)
    (hbase : ∀ v, (Context.fromBody s.page.body s.height deadline.toNat).operand
      (Function.update (initialRegisters state) .state0 v) period base = y) :
    state.2.toNat ≤ s.height ∧ s.page.body.outputs[1].amount = value.toNat ∧
      next.1.toNat = state.1.toNat + x.toNat ∧ next.2.toNat = y.toNat + period.toNat := by
  have hexecuted := h.executed
  rw [execute_schedule (decide_eq_true h.before) hcounter hbase] at hexecuted
  simp only [ok_rules] at hexecuted
  obtain ⟨hdue, hpayout, h1, h2, hnext⟩ := hexecuted
  obtain rfl := packState_injective hnext
  have hdue := BitVec.le_def.mp hdue
  rw [h.height_eq] at hdue
  refine ⟨hdue, ?_, toNat_add_word h1, toNat_add_word h2⟩
  rw [← h.payout_eq hamount, hpayout]

lemma recurring_run {payee : Address} {terms : RecurringPayment}
    (hwallet : Scheduled o terms.recoverAt (recurringInstructions terms) (0, terms.firstDueHeight))
    (hpayment : terms.payment ≠ 0) (hpayee : o.claimRecipient = payee)
    (hmodes : o.rules.modes &&& ANY_PAYOUT_RECIPIENT = 0) (hamount : amount < U64)
    (hrun : ObjectRun H hashPages o amount steps) :
    ∃ state, currentOpening o steps = o.successor (packState state) ∧ RecurringInv payee terms (claims steps) state := by
  refine hwallet.run hrun (P := RecurringInv payee terms) ?_ ?_
  · exact ⟨rfl, by simp, .nil, by simp, by simp, by simp⟩
  · intro steps s state next hclaim hinv
    obtain ⟨hdue, hpaid, hcount, hnext⟩ := Claim.schedule hclaim hamount (x := 1)
      (y := (Context.fromBody s.page.body s.height terms.recoverAt.toNat).height) rfl fun _ => rfl
    rw [hclaim.height_eq] at hnext
    have hpos : 0 < s.page.body.outputs[1].amount := by
      rw [hpaid, Nat.pos_iff_ne_zero]
      exact fun hzero => hpayment (BitVec.eq_of_toNat_eq hzero)
    have hfirst := hinv.due
    refine ⟨?_, ?_, ?_, ?_, ?_, ?_⟩
    · rw [length_append, hcount, hinv.counted]
      rfl
    · rw [length_append, length_singleton, hnext, Nat.add_mul]
      omega
    · rw [pairwise_append]
      refine ⟨hinv.spaced, pairwise_singleton _ _, ?_⟩
      intro s' hs' s'' hs''
      obtain rfl := mem_singleton.mp hs''
      exact (hinv.before s' hs').trans hdue
    · refine forall_mem_append.mpr ⟨fun s' hs' => ?_, forall_mem_singleton.mpr hnext.ge⟩
      have hbefore := hinv.before s' hs'
      omega
    · have hstarted := (Nat.le_add_right _ _).trans (hfirst.trans hdue)
      exact forall_mem_append.mpr ⟨hinv.started, forall_mem_singleton.mpr hstarted⟩
    · obtain ⟨hlive, howner⟩ := hclaim.payee hwallet.deadline hmodes hpos
      exact forall_mem_append.mpr ⟨hinv.paid, forall_mem_singleton.mpr ⟨hpaid, hlive, howner.trans hpayee⟩⟩

lemma recurringOk {payer payee : Address} {terms : RecurringPayment}
    (hterms : recurringPayment payer payee terms = .ok o) (hamount : amount < U64)
    (hrun : ObjectRun H hashPages o amount steps) : RecurringOk payee terms o amount steps := by
  obtain ⟨hschedule, hwallet, hpayment, hpayee, hmodes⟩ := recurringPayment_eq_ok hterms
  obtain ⟨state, hstate, hinv⟩ := recurring_run hwallet hpayment hpayee hmodes hamount hrun
  refine ⟨hinv.spaced, hinv.started, hinv.paid, ?_, ?_⟩
  · intro body height step hpayout
    rw [hstate]
    refine hwallet.schedule_fits (x := fun _ => 1) (y := fun height => .ofNat 64 height) (fun _ => rfl)
      (fun _ _ => rfl) ?_ height step
    intro height hheight hdue _
    have hone : (1 : Word64).toNat = 1 := rfl
    have hlt := terms.recoverAt.isLt
    have hfits := hschedule.fits
    have hdue0 := hinv.due
    have hmul : (claims steps).length ≤ (claims steps).length * terms.periodBlocks.toNat :=
      Nat.le_mul_of_pos_right _ hschedule.period_pos
    rw [hinv.counted, hone, toNat_word (hheight.trans hlt)]
    unfold U64 at hfits ⊢
    omega
  · intro body height hheight
    rw [hstate]
    exact hwallet.execute_recovery state body hheight

lemma vesting_run (hwallet : Scheduled o terms.matureAt (vestingInstructions terms) (0, terms.firstUnlockHeight))
    (hamount : amount < U64) (hrun : ObjectRun H hashPages o amount steps) :
    ∃ state, currentOpening o steps = o.successor (packState state) ∧ VestingInv terms amount (claims steps) state := by
  refine hwallet.run hrun (P := VestingInv terms amount) ?_ ?_
  · exact ⟨by simp, by simp, by simp [heldAmount], by simp, by simp⟩
  · intro steps s state next hclaim hinv
    obtain ⟨hdue, hpaid, hcount, hnext⟩ := Claim.schedule hclaim hamount
      (x := (Context.fromBody s.page.body s.height terms.matureAt.toNat).payout) (y := state.2) rfl fun _ => rfl
    rw [hclaim.payout_eq hamount, hpaid] at hcount
    have hbalance := hclaim.balance
    have hheld := hinv.held
    refine ⟨?_, ?_, ?_, ?_, ?_⟩
    · rw [length_append, length_singleton, Nat.add_mul, hcount, hinv.released, Nat.one_mul]
    · rw [length_append, length_singleton, Nat.add_mul, hnext, hinv.due]
      omega
    · rw [length_append, length_singleton, Nat.add_mul, ObjectRun.heldAmount_append]
      omega
    · exact forall_mem_append.mpr ⟨hinv.paid, forall_mem_singleton.mpr hpaid⟩
    · intro height n hn
      rw [filter_append, length_append] at hn
      by_cases hheight : s.height ≤ height
      · -- the claim itself bounds the claims up to it
        have hle : (steps.filter fun s => s.height ≤ height).length ≤ steps.length := length_filter_le _ _
        rw [filter_cons_of_pos (by simpa using hheight), filter_nil, length_singleton] at hn
        have hn : n ≤ steps.length := by omega
        have hmul := Nat.mul_le_mul_right terms.periodBlocks.toNat hn
        rw [hinv.due] at hdue
        omega
      · rw [filter_cons_of_neg (by simpa using hheight), filter_nil, length_nil, Nat.add_zero] at hn
        exact hinv.unlocked height n hn

lemma VestingInv.filter_length_le (h : VestingInv terms amount steps state) (hperiod : 0 < terms.periodBlocks.toNat) (height : ℕ) :
    (steps.filter fun s => s.height ≤ height).length ≤ terms.dueTranches height := by
  cases hn : (steps.filter fun s => s.height ≤ height).length with
  | zero => exact Nat.zero_le _
  | succ n =>
    have hunlocked := h.unlocked height n hn
    rw [TrancheVesting.dueTranches, if_neg (by omega)]
    refine Nat.succ_le_succ ((Nat.le_div_iff_mul_le hperiod).mpr ?_)
    omega

lemma vestingOk {beneficiary : Address} (hterms : trancheVesting beneficiary terms = .ok o)
    (hamount : amount < U64) (hrun : ObjectRun H hashPages o amount steps) : VestingOk terms o amount steps := by
  obtain ⟨hschedule, hwallet⟩ := trancheVesting_eq_ok hterms
  obtain ⟨state, hstate, hinv⟩ := vesting_run hwallet hamount hrun
  have hheld := hrun.heldAmount_le_claims
  have hpaid := hinv.held
  have hlt := terms.matureAt.isLt
  refine ⟨?_, ?_, ?_, ?_⟩
  · intro height hheight
    have hfilter : (steps.filter fun s => s.height ≤ height) = (claims steps).filter fun s => s.height ≤ height := by
      rw [claims, filter_filter]
      refine filter_congr fun s hs => ?_
      rw [hwallet.isTerminal hrun hs]
      by_cases hle : s.height ≤ height
      · rw [decide_eq_false (by omega : ¬terms.matureAt.toNat ≤ s.height)]
        simp [hle]
      · simp [hle]
    have hsum : (((claims steps).filter fun s => s.height ≤ height).map fun s => s.page.body.outputs[1].amount) =
        replicate ((claims steps).filter fun s => s.height ≤ height).length terms.trancheAmount.toNat := by
      rw [eq_replicate_iff, length_map]
      refine ⟨rfl, fun n hn => ?_⟩
      obtain ⟨s, hs, rfl⟩ := mem_map.mp hn
      exact hinv.paid s (mem_of_mem_filter hs)
    rw [paidBy, hfilter, hsum, sum_replicate_nat, Nat.mul_comm]
    exact Nat.mul_le_mul_left _ (hinv.filter_length_le hschedule.period_pos height)
  · intro body height hdue htranche hpayout
    rw [hstate]
    by_cases hheight : height < terms.matureAt.toNat
    · have hfits := hschedule.fits
      have hstarted : ¬height < terms.firstUnlockHeight.toNat := by
        intro hearly
        rw [TrancheVesting.dueTranches, if_pos hearly] at hdue
        omega
      rw [TrancheVesting.dueTranches, if_neg hstarted, Nat.add_le_add_iff_right,
        Nat.le_div_iff_mul_le hschedule.period_pos] at hdue
      have hword : (BitVec.ofNat 64 body.outputs[1].amount).toNat = body.outputs[1].amount := toNat_word (by omega)
      have hreached : state.2 ≤ BitVec.ofNat 64 height := by
        rw [BitVec.le_def, toNat_word (hheight.trans hlt), hinv.due]
        omega
      have hcount : state.1.toNat + (BitVec.ofNat 64 body.outputs[1].amount).toNat < U64 := by
        rw [hword, hinv.released]
        omega
      have hnext : state.2.toNat + terms.periodBlocks.toNat < U64 := by
        rw [hinv.due]
        omega
      refine ⟨packState (state.1 + .ofNat 64 body.outputs[1].amount, state.2 + terms.periodBlocks), ?_⟩
      rw [hwallet.execute_eq]
      exact congrArg (Except.mapError _) (schedule_accepts (decide_eq_true hheight) rfl (fun _ => rfl) hreached
        (BitVec.eq_of_toNat_eq (hword.trans htranche)) hcount hnext)
    · exact ⟨_, hwallet.execute_recovery state body (not_lt.mp hheight)⟩
  · intro body height step hpayout
    rw [hstate]
    refine hwallet.schedule_fits (x := fun _ => .ofNat 64 body.outputs[1].amount) (y := fun _ => state.2) (fun _ => rfl)
      (fun _ _ => rfl) ?_ height step
    intro height hheight hdue _
    have hfits := hschedule.fits
    rw [hinv.released, toNat_word (by omega)]
    omega
  · intro body height hheight
    rw [hstate]
    exact hwallet.execute_recovery state body hheight

/-- **Scheduled payouts**: recurring payments and vesting schedules keep their promises along every run. -/
theorem scheduled_payouts (hamount : amount < U64) (hrun : ObjectRun H hashPages o amount steps) :
    (∀ payer payee terms, recurringPayment payer payee terms = .ok o → RecurringOk payee terms o amount steps) ∧
      ∀ beneficiary terms, trancheVesting beneficiary terms = .ok o → VestingOk terms o amount steps :=
  ⟨fun _ _ _ hterms => recurringOk hterms hamount hrun, fun _ _ hterms => vestingOk hterms hamount hrun⟩

end

section

open ObjectChain

def weeklyTerms : RecurringPayment where
  firstDueHeight := 10
  periodBlocks := 5
  payment := 7
  recoverAt := 30
  maxFee := 2

def weeklyWallet : ObjectOpening :=
  ObjectOpening.install { allowanceWallet 2 1 (some 2) 30 2 7 2 with state := packState (0, 10) }
    (recurringInstructions weeklyTerms)

/-- A payment, which goes to the recipient, in a state that it leaves for another. -/
def scheduleClaim (o : ObjectOpening) (coin height : ℕ) (state next : Word64 × Word64) : ObjectStep :=
  { opening := o.successor (packState state)
    page := objectCall ((o.successor (packState state)).root stateHash) (coin + 1) (100 - 4 * coin) 1
      ⟨coin + 2, 92 - 4 * coin, (o.successor (packState next)).root stateHash⟩ ⟨coin + 3, 7, 2⟩ (outputBitmapBit 1)
    height := height, outcome := { next := packState next, authority := 2, terminal := false } }

/-- A payment two blocks after it was due, and one three blocks after it was due. -/
def weeklySteps : List ObjectStep :=
  [scheduleClaim weeklyWallet 0 12 (0, 10) (1, 17), scheduleClaim weeklyWallet 2 20 (1, 17) (2, 25)]

def unlockTerms : TrancheVesting where
  firstUnlockHeight := 10
  periodBlocks := 5
  trancheAmount := 7
  matureAt := 30
  maxFee := 2

def unlockWallet : ObjectOpening :=
  ObjectOpening.install { allowanceWallet 2 2 (some 2) 30 2 7 2 with state := packState (0, 10) }
    (vestingInstructions unlockTerms)

/-- The first two tranches, both late and so at once. -/
def unlockSteps : List ObjectStep :=
  [scheduleClaim unlockWallet 0 16 (0, 10) (7, 15), scheduleClaim unlockWallet 2 16 (7, 15) (14, 20)]

lemma weeklySteps_run : ObjectRun stateHash (fun _ => 0) weeklyWallet 100 weeklySteps := by
  have hfirst : ObjectRun stateHash (fun _ => 0) weeklyWallet 100 ([] ++ [weeklySteps[0]]) :=
    .snoc .nil (by simp) (by simp) rfl rfl (by decide +kernel)
  exact .snoc hfirst (by decide +kernel) (by decide +kernel) rfl rfl (by decide +kernel)

lemma unlockSteps_run : ObjectRun stateHash (fun _ => 0) unlockWallet 100 unlockSteps := by
  have hfirst : ObjectRun stateHash (fun _ => 0) unlockWallet 100 ([] ++ [unlockSteps[0]]) :=
    .snoc .nil (by simp) (by simp) rfl rfl (by decide +kernel)
  exact .snoc hfirst (by decide +kernel) (by decide +kernel) rfl rfl (by decide +kernel)

theorem scheduled_payouts_unlock : RecurringOk 2 weeklyTerms weeklyWallet 100 weeklySteps ∧
    VestingOk unlockTerms unlockWallet 100 unlockSteps :=
  ⟨(scheduled_payouts (by decide) weeklySteps_run).1 1 2 weeklyTerms (by decide +kernel),
    (scheduled_payouts (by decide) unlockSteps_run).2 2 unlockTerms (by decide +kernel)⟩

end

end Noid.Tx
