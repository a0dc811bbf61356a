import Noid.Pruv.Body
import Noid.Tx.Object

/-! # The compiler

`compile` turns a source text and a parameter object into an opening: it evaluates parameters, constants and initial
states, checks the policy and the postconditions, lowers the body and pads the program to its sixteen steps.  The parser
is a parameter. -/

namespace Noid.Pruv

open Noid.Lib Noid.Tx

/-! ### Parameters -/

/-- The string, if it is one. -/
def Json.asStr : Json → Option String
  | .string s => some s
  | _ => none

/-- The truth value, if it is one. -/
def Json.asBool : Json → Option Bool
  | .bool b => some b
  | _ => none

/-- The fields, if it is an object. -/
def Json.asObject : Json → Option (List (String × Json))
  | .object fields => some fields
  | _ => none

/-- The value of a string of digits. -/
def decimal (digits : List Char) : ℕ := digits.foldl (fun n d => 10 * n + (d.toNat - '0'.toNat)) 0

section
variable (A : AddressCodec)

/-- The value of a parameter at its declared type. -/
def parameter (value : Json) (ty : Ty) (span : Span) : Except Error Value :=
  match ty with
  | .u64 => do
    let text ← orElseThrow (span.error "u64 parameters require canonical decimal JSON strings") value.asStr
    let digits := text.toList
    require (digits ≠ [] ∧ text.utf8ByteSize ≤ 20 ∧ ¬(1 < digits.length ∧ digits.head? = some '0') ∧
      digits.all (·.isDigit)) (span.error "expected a canonical decimal u64 string")
    require (decimal digits < U64) (span.error "parameter exceeds u64")
    return .u64 (.ofNat 64 (decimal digits))
  | .bool => do
    let b ← orElseThrow (span.error "expected a JSON bool") value.asBool
    return .bool b
  | .address => do
    let text ← orElseThrow (span.error "expected an o1 address string") value.asStr
    let address ← (A.parse text).mapError span.error
    return .address (A.toBech32 address)

/-! ### The policy -/

/-- The fields of a policy and their types, in the order of their names. -/
def policyTypes : List (String × Ty) :=
  [("claim_authority", .address), ("claim_can_close", .bool), ("claim_can_continue", .bool),
    ("claim_recipient", .address), ("deadline_height", .u64), ("max_fee_micronoid", .u64),
    ("max_payout_micronoid", .u64), ("min_retained_micronoid", .u64), ("recovery_authority", .address),
    ("recovery_can_close", .bool), ("recovery_can_continue", .bool), ("recovery_recipient", .address),
    ("unrestricted_payout_recipient", .bool)]

/-- An address in a policy must be one. -/
def checkAddress (span : Span) : Value → Except Error Unit
  | .address text => do
    let _ ← (A.parse text).mapError span.error
    return ()
  | _ => .ok ()

/-- Evaluate a field of the policy; each is given once, at its type. -/
def policyField (env : Environment) (values : List (String × Value)) (field : String × Expr × Span) :
    Except Error (List (String × Value)) := do
  let (name, expr, span) := field
  let expected ← orElseThrow (span.error ("unknown policy field '" ++ name ++ "'")) (policyTypes.lookup name)
  let t ← env.ty false expr
  require (t = expected) (expr.span.error ("policy field '" ++ name ++ "' requires " ++ expected.name))
  let value ← env.value A expr
  checkAddress A expr.span value
  require (values.lookup name).isNone (span.error ("duplicate policy field '" ++ name ++ "'"))
  return values ++ [(name, value)]

/-- A field that was checked to be an address. -/
def policyAddress (values : List (String × Value)) (name : String) : Except Error Address :=
  match values.lookup name with
  | some (.address text) => (A.parse text).mapError Error.plain
  | _ => .error (.plain "unreachable")

/-- A field that was checked to be a number. -/
def policyNumber (values : List (String × Value)) (name : String) : Except Error ℕ :=
  match values.lookup name with
  | some (.u64 n) => .ok n.toNat
  | _ => .error (.plain "unreachable")

/-- A field that was checked to be a truth value. -/
def policyFlag (values : List (String × Value)) (name : String) : Except Error Bool :=
  match values.lookup name with
  | some (.bool b) => .ok b
  | _ => .error (.plain "unreachable")

/-- The bit of a permission that is granted. -/
def modeOf (flag : Bool) (bit : BitVec 8) : BitVec 8 := if flag then bit else 0

/-- The opening that the policy block describes; every field must be given. -/
def policy (source : Source) (env : Environment) (state : StatePair) : Except Error ObjectOpening := do
  let values ← source.policy.foldlM (policyField A env) []
  policyTypes.forM fun (name, _) =>
    require (values.lookup name).isSome
      (.plain ("missing policy field '" ++ name ++ "'; permissions must be explicit"))
  let claimContinue ← policyFlag values "claim_can_continue"
  let claimClose ← policyFlag values "claim_can_close"
  let recoveryContinue ← policyFlag values "recovery_can_continue"
  let recoveryClose ← policyFlag values "recovery_can_close"
  let anyPayout ← policyFlag values "unrestricted_payout_recipient"
  let modes := modeOf claimContinue CLAIM_CONTINUE ||| modeOf claimClose CLAIM_CLOSE |||
    modeOf recoveryContinue RECOVERY_CONTINUE ||| modeOf recoveryClose RECOVERY_CLOSE |||
    modeOf anyPayout ANY_PAYOUT_RECIPIENT
  let claimAuthority ← policyAddress A values "claim_authority"
  let recoveryAuthority ← policyAddress A values "recovery_authority"
  let claimRecipient ← policyAddress A values "claim_recipient"
  let recoveryRecipient ← policyAddress A values "recovery_recipient"
  let deadline ← policyNumber values "deadline_height"
  let maxFee ← policyNumber values "max_fee_micronoid"
  let maxPayout ← policyNumber values "max_payout_micronoid"
  let minRetained ← policyNumber values "min_retained_micronoid"
  return { program := EMPTY_PROGRAM, state := packState state, claimAuthority := claimAuthority
           recoveryAuthority := recoveryAuthority, claimRecipient := claimRecipient
           recoveryRecipient := recoveryRecipient, deadline := deadline
           rules := { maxFee := maxFee, maxPayout := maxPayout, minRetained := minRetained, modes := modes } }

/-! ### Declarations -/

/-- Bind a parameter to the value handed over. -/
def declareParam (parameters : List (String × Json)) (env : Environment) (d : Declaration) :
    Except Error Environment := do
  env.declare d.name d.span
  let json ← orElseThrow (d.span.error ("missing parameter '" ++ d.name ++ "'")) (parameters.lookup d.name)
  let value ← parameter A json d.ty d.span
  return { env with values := env.values ++ [(d.name, value)] }

/-- Bind a constant; the parser gives it an initializer. -/
def declareConstant (env : Environment) (d : Declaration) : Except Error Environment := do
  env.declare d.name d.span
  let expr ← orElseThrow (d.span.error "constant initializer") d.value
  let t ← env.ty false expr
  require (t = d.ty) (expr.span.error "constant initializer has the wrong type")
  let value ← env.value A expr
  return { env with values := env.values ++ [(d.name, value)] }

/-- States are numbers. -/
def stateNumber (expr : Expr) : Value → Except Error Word64
  | .u64 n => .ok n
  | _ => .error (expr.span.error "state initializer requires u64")

/-- Bind a state to its register, with its initial value. -/
def declareState (register : Register) (env : Environment) (d : Declaration) :
    Except Error (Word64 × Environment) := do
  env.declare d.name d.span
  require (d.ty = .u64) (d.span.error "persistent state must be u64")
  let expr ← orElseThrow (d.span.error "state initializer") d.value
  let value ← env.value A expr
  let n ← stateNumber expr value
  return (n, { env with states := env.states ++ [(d.name, register)] })

/-- The state variables in the order of the registers; what is not declared is zero. -/
def declareStates (env : Environment) : List Declaration → Except Error (StatePair × Environment)
  | [] => .ok ((0, 0), env)
  | [first] => do
    let (n, env) ← declareState A .state0 env first
    return ((n, 0), env)
  | [first, second] => do
    let (n, env) ← declareState A .state0 env first
    let (m, env) ← declareState A .state1 env second
    return ((n, m), env)
  | _ :: _ :: third :: _ => .error (third.span.error "ABI 3 has two persistent state registers")

/-! ### Compilation -/

/-- A compiled contract, with the source it came from. -/
structure CompiledContract where
  name : String
  instructions : ℕ
  stateRegisters : ℕ
  opening : ObjectOpening
  source : Source
  env : Environment

/-- The deadline that the program compares heights with. -/
def CompiledContract.deadline (contract : CompiledContract) : Word64 := .ofNat 64 contract.opening.deadline

/-- What a rejected opening is reported as. -/
def validationText : ObjectError → String
  | .policy => "contract: Policy"
  | .opcode step => "contract: Opcode \x7b step: " ++ toString step ++ " \x7d"
  | _ => "contract"

/-- Compile a text under the parameters handed over. -/
def compile (parse : String → Except Error Source) (text : String) (parameters : Json) :
    Except Error CompiledContract := do
  let source ← parse text
  let parameters ← orElseThrow (.plain "parameters must be a JSON object") parameters.asObject
  let env ← source.params.foldlM (declareParam A parameters) .empty
  parameters.forM fun (name, _) =>
    require (name ∈ source.params.map Declaration.name) (.plain ("unknown parameter '" ++ name ++ "'"))
  let env ← source.constants.foldlM (declareConstant A) env
  let (state, env) ← declareStates A env source.states
  let opening ← policy A source env state
  source.ensures.forM fun condition => do
    let t ← env.ty true condition
    require (t = .bool) (condition.span.error "ensures requires bool")
  let lowering ← env.block A .ALWAYS .start source.body
  let opening := { opening with program := padProgram lowering.program }
  opening.validate.mapError fun e => .plain (validationText e)
  return { name := source.name, instructions := lowering.program.length, stateRegisters := source.states.length
           opening := opening, source := source, env := env }

/-- What a source declares: the environment of its body, and its opening but for the program. -/
def declared (source : Source) (parameters : Json) : Except Error (Environment × ObjectOpening) := do
  let parameters ← orElseThrow (.plain "parameters must be a JSON object") parameters.asObject
  let env ← source.params.foldlM (declareParam A parameters) .empty
  let env ← source.constants.foldlM (declareConstant A) env
  let (state, env) ← declareStates A env source.states
  let opening ← policy A source env state
  return (env, opening)

/-! ### Declared names -/

variable {A} {env env' : Environment}

lemma wellFormed_empty : Environment.empty.WellFormed where
  states := by
    intro n r h
    cases h
  builtin := fun n hn => ⟨rfl, rfl⟩

lemma builtin_ne_of_declare {name : String} {span : Span} {u : Unit} (h : env.declare name span = .ok u) {n : String}
    (hn : (builtin n).isSome) : n ≠ name := by
  simp only [Environment.declare, ok_rules] at h
  rintro rfl
  simp [reserved, hn] at h

lemma lookup_append_ne {α : Type} {l : List (String × α)} {n name : String} {a : α} (h : n ≠ name) :
    (l ++ [(name, a)]).lookup n = l.lookup n := by
  rw [List.lookup_append, List.lookup_cons, beq_eq_false_iff_ne.mpr h]
  exact Option.or_none

lemma wellFormed_addValue (h : env.WellFormed) {name : String} {v : Value}
    (hname : ∀ n, (builtin n).isSome → n ≠ name) : { env with values := env.values ++ [(name, v)] }.WellFormed := by
  refine ⟨h.states, fun n hn => ⟨?_, (h.builtin n hn).2⟩⟩
  rw [lookup_append_ne (hname n hn), (h.builtin n hn).1]

lemma wellFormed_addState (h : env.WellFormed) {name : String} {r : Register}
    (hr : r = .state0 ∨ r = .state1) (hname : ∀ n, (builtin n).isSome → n ≠ name) :
    { env with states := env.states ++ [(name, r)] }.WellFormed := by
  refine ⟨fun n r' hlookup => ?_, fun n hn => ⟨(h.builtin n hn).1, ?_⟩⟩
  · rw [List.lookup_append] at hlookup
    cases hold : env.states.lookup n with
    | some r0 =>
      rw [hold] at hlookup
      cases hlookup
      exact h.states n _ hold
    | none =>
      rw [hold, Option.none_or, List.lookup_cons] at hlookup
      split at hlookup
      · cases hlookup
        exact hr
      · cases hlookup
  · rw [lookup_append_ne (hname n hn), (h.builtin n hn).2]

lemma declareParam_wellFormed {parameters : List (String × Json)} {d : Declaration} (h : env.WellFormed)
    (hd : declareParam A parameters env d = .ok env') : env'.WellFormed := by
  simp only [declareParam, ok_rules] at hd
  obtain ⟨⟨⟩, hdeclare, json, -, value, -, rfl⟩ := hd
  exact wellFormed_addValue h fun n hn => builtin_ne_of_declare hdeclare hn

lemma declareConstant_wellFormed {d : Declaration} (h : env.WellFormed) (hd : declareConstant A env d = .ok env') :
    env'.WellFormed := by
  simp only [declareConstant, ok_rules] at hd
  obtain ⟨⟨⟩, hdeclare, expr, -, t, -, ⟨⟩, -, value, -, rfl⟩ := hd
  exact wellFormed_addValue h fun n hn => builtin_ne_of_declare hdeclare hn

lemma declareState_wellFormed {r : Register} {d : Declaration} {n : Word64} (hr : r = .state0 ∨ r = .state1)
    (h : env.WellFormed) (hd : declareState A r env d = .ok (n, env')) : env'.WellFormed := by
  simp only [declareState, bind_eq_ok, pure_eq_ok, Prod.mk.injEq] at hd
  obtain ⟨⟨⟩, hdeclare, ⟨⟩, -, expr, -, value, -, m, -, -, rfl⟩ := hd
  exact wellFormed_addState h hr fun n hn => builtin_ne_of_declare hdeclare hn

lemma declareStates_wellFormed {l : List Declaration} {s : StatePair} (h : env.WellFormed)
    (hd : declareStates A env l = .ok (s, env')) : env'.WellFormed := by
  unfold declareStates at hd
  split at hd
  · cases hd
    exact h
  · simp only [ok_rules, Prod.exists, Prod.mk.injEq] at hd
    obtain ⟨n, env1, hfirst, -, rfl⟩ := hd
    exact declareState_wellFormed (.inl rfl) h hfirst
  · simp only [ok_rules, Prod.exists, Prod.mk.injEq] at hd
    obtain ⟨n, env1, hfirst, m, env2, hsecond, -, rfl⟩ := hd
    exact declareState_wellFormed (.inr rfl) (declareState_wellFormed (.inl rfl) h hfirst) hsecond
  · cases hd

/-! ### Correctness -/

/-- What the compiler has checked and produced. -/
structure Compiled (A : AddressCodec) (contract : CompiledContract) (lowering : Lowering) : Prop where
  wellFormed : contract.env.WellFormed
  lowered : contract.env.block A .ALWAYS .start contract.source.body = .ok lowering
  program : contract.opening.program = padProgram lowering.program
  ensures : ∀ e ∈ contract.source.ensures, contract.env.ty true e = .ok .bool

lemma compile_eq_ok {parse : String → Except Error Source} {text : String} {parameters : Json}
    {contract : CompiledContract} (h : compile A parse text parameters = .ok contract) :
    parse text = .ok contract.source ∧
      (∃ opening, declared A contract.source parameters = .ok (contract.env, opening) ∧
        contract.opening = { opening with program := contract.opening.program }) ∧
      ∃ lowering, Compiled A contract lowering := by
  simp only [compile, ok_rules, Prod.exists, forM_eq_ok, exists_eq_right] at h
  obtain ⟨source, hparse, fields, hfields, env1, hparams, -, env2, hconstants, s0, s1, env3, hstates, opening, hpolicy,
    hensures, lowering, hlowered, _, -, rfl⟩ := h
  have hdeclared : declared A source parameters = .ok (env3, opening) := by
    simp only [declared, ok_rules, Prod.exists, Prod.mk.injEq]
    exact ⟨fields, hfields, env1, hparams, env2, hconstants, s0, s1, env3, hstates, opening, hpolicy, rfl, rfl⟩
  have h1 : env1.WellFormed :=
    foldlM_invariant (fun _ _ _ => declareParam_wellFormed) wellFormed_empty hparams
  have h2 : env2.WellFormed := foldlM_invariant (fun _ _ _ => declareConstant_wellFormed) h1 hconstants
  exact ⟨hparse, ⟨opening, hdeclared, rfl⟩, lowering, declareStates_wellFormed h2 hstates, hlowered, rfl, hensures⟩

lemma Compiled.realises {contract : CompiledContract} {lowering : Lowering} (h : Compiled A contract lowering)
    {c : Context} {deadline : Word64} (hdeadline : c.beforeDeadline = decide (c.height < deadline)) (s : StatePair) :
    Realises Proper (fun s' state => state = packState s')
      (runBlock contract.env { context := c, deadline := deadline, old := none } s contract.source.body)
      (execute contract.opening.program (packState s) c) := by
  have hguard : Guarded .ALWAYS Lowering.start := fun r hr => by cases hr
  have hblock : StatementOk ⟨c, deadline, none⟩ .ALWAYS Lowering.start lowering
      fun s => runBlock contract.env ⟨c, deadline, none⟩ s contract.source.body :=
    block_ok ⟨h.wellFormed, hdeadline⟩ _ hguard h.lowered
  obtain ⟨-, code, hprogram, hrun⟩ := hblock
  rw [h.program, execute_padProgram lowering.fits, hprogram]
  have hbody := hrun (initialRegisters s) 0 true (status_always _ _)
  refine hbody.map ?_
  rintro s' regs ⟨rfl, -⟩
  rfl

/-- **The compiler is correct**: the contract is what the text parses to, and its program returns the state that the
body gives, fails when the body fails, and never meets a guard that is no truth value. -/
theorem compile_correct {parse : String → Except Error Source} {text : String} {parameters : Json}
    {contract : CompiledContract} (h : compile A parse text parameters = .ok contract) (s : StatePair) (c : Context)
    (hdeadline : c.beforeDeadline = decide (c.height < contract.deadline)) :
    parse text = .ok contract.source ∧
    (∃ opening, declared A contract.source parameters = .ok (contract.env, opening) ∧
      contract.opening = { opening with program := contract.opening.program }) ∧
    (∀ s', execute contract.opening.program (packState s) c = .ok (packState s') ↔
      runBlock contract.env ⟨c, contract.deadline, none⟩ s contract.source.body = some s') ∧
    ∀ step, execute contract.opening.program (packState s) c ≠ .error (.nonBooleanPredicate step) := by
  obtain ⟨hparse, hdeclared, lowering, hcompiled⟩ := compile_eq_ok h
  have hrealises := hcompiled.realises hdeadline s
  refine ⟨hparse, hdeclared, ?_, ?_⟩
  · intro s'
    rw [hrealises.ok_iff fun a s1 s2 h1 h2 => h1.trans h2.symm]
    constructor
    · rintro ⟨s1, hs1, hpack⟩
      rw [hs1, ← unpackState_packState s', hpack, unpackState_packState]
    · intro hrun
      exact ⟨s', hrun, rfl⟩
  · intro step hstep
    exact hrealises.fault_of_error hstep step rfl

end

/-! ### A contract -/

/-- Addresses written as numbers in unary. -/
def unaryCodec : AddressCodec where
  parse text := .ok text.length
  toBech32 a := String.ofList (List.replicate a 'a')

/-- A meter of what has been paid out: every payment is at most fifty. -/
def meterSource : Source :=
  let at0 : Span := ⟨0, 0⟩
  let field (name : String) (value : Value) : String × Expr × Span := (name, .value value at0, at0)
  { name := "meter", params := [], constants := []
    states := [{ name := "paid", ty := .u64, value := some (.value (.u64 0) at0), span := at0 }]
    policy := policyTypes.map fun (name, ty) => field name <| match ty with
      | .u64 => .u64 100
      | .bool => .bool true
      | .address => .address "a"
    body := [.when (.name "has_payout" at0)
      [.require (.binary .lessEqual (.name "payout" at0) (.value (.u64 50) at0) at0),
        .assign "paid" (.binary .add (.name "paid" at0) (.name "payout" at0) at0) at0]]
    ensures := [.binary .lessEqual (.old "paid" at0) (.name "paid" at0) at0] }

/-- The meter, compiled. -/
def compileMeter : Except Error CompiledContract :=
  compile unaryCodec (fun _ => .ok meterSource) "meter" (.object [])

/-- A payment of seven at height three. -/
def meterCall : Context where
  height := 3
  fee := 1
  payout := 7
  retained := 80
  inputAmount := 88
  beforeDeadline := true
  terminal := false
  hasPayout := true
  payoutOwner := #v[0, 0, 0, 0]
  inputCreationId := 6
  inputSlot := 1
  retainedSlot := 2
  payoutSlot := 3

lemma compileMeter_run : (compileMeter.map fun contract => (contract.deadline,
      runBlock contract.env ⟨meterCall, contract.deadline, none⟩ (5, 0) contract.source.body)) =
        .ok (100, some (12, 0)) := by
  decide +kernel

theorem compileMeter_correct :
    ∃ contract, compileMeter = .ok contract ∧ contract.source = meterSource ∧
      execute contract.opening.program (packState (5, 0)) meterCall = .ok (packState (12, 0)) := by
  have hrun := compileMeter_run
  cases hcompile : compileMeter with
  | error e =>
    rw [hcompile] at hrun
    cases hrun
  | ok contract =>
    rw [hcompile] at hrun
    obtain ⟨hdeadline, hbody⟩ := Prod.ext_iff.mp (Except.ok.inj hrun)
    have hflag : meterCall.beforeDeadline = decide (meterCall.height < contract.deadline) := by
      rw [show contract.deadline = 100 from hdeadline]
      rfl
    obtain ⟨hparse, -, hiff, -⟩ := compile_correct hcompile (5, 0) meterCall hflag
    exact ⟨contract, rfl, (Except.ok.inj hparse).symm, (hiff _).mpr hbody⟩

end Noid.Pruv
