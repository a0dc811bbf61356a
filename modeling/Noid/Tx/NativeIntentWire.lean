import Noid.Tx.NativeGroup
import Noid.Tx.NativeIntent
import Noid.Tx.OpeningWire
import Noid.Tx.PagedSpendWire

/-! # The wire format of native intents

A prefix with the number of pages and the length of the authorization, the pages, one record per live action with its
opening or nothing, for a financial operation the counted dependencies, and last the authorization.  The reader learns
from the pages how many records follow.  An accepted intent always fits `MAX_NATIVE_INTENT_BYTES`. -/

namespace Noid.Tx

open Noid.Lib List NativeOpening

/-- The bytes of `NOIDNT21`. -/
def NATIVE_INTENT_MAGIC : Bytes := [78, 79, 73, 68, 78, 84, 50, 49]

def NATIVE_INTENT_PREFIX_BYTES : ℕ := 16

def MAX_NATIVE_INTENT_BYTES : ℕ :=
  NATIVE_INTENT_PREFIX_BYTES + MAX_PAGED_SPEND_PAGES * TX_BODY_WIRE_SIZE +
    (MAX_PAGED_SPEND_INPUTS + MAX_PAGED_SPEND_OUTPUTS) * (2 + MAX_NATIVE_OPENING_BYTES) + 2 +
    MAX_NATIVE_INTENT_DEPENDENCIES * (2 + MAX_NATIVE_OPENING_BYTES) + MAX_TX_AUTHORIZATION_BYTES

/-! ### Records of openings -/

def writeOpening (o : Option NativeOpening) : Except NativeWireError Bytes := do
  let raw ← NativeOpening.writeOpt .opening o
  return leBytes 2 raw.length ++ raw

def readOpening : Reader NativeWireError (Option NativeOpening) := do
  let len ← takeLe .encoding 2
  Reader.require (len ≤ MAX_NATIVE_OPENING_BYTES) .bounds
  NativeOpening.readSized .encoding .opening len

def readOpenings (count : ℕ) : Reader NativeWireError (List (Option NativeOpening)) := readMany readOpening count

lemma writeOpening_ok {o : Option NativeOpening} (h : ∀ x ∈ o, x.validate = .ok ()) :
    writeOpening o = .ok (NativeOpening.record o) :=
  (bind_of_ok (writeOpt_ok _ h)).trans rfl

/-- **The format of a record.** -/
theorem reads_opening : Reads readOpening NativeOpening.record (fun o => ∀ x ∈ o, x.Carried) := by
  refine .of_iff fun src o rest => ?_
  have hle := fun h : ∀ x ∈ o, x.Carried => length_optBytes_le fun x hx => (h x hx).2
  have hlt := fun h => lt_of_le_of_lt (hle h) (show MAX_NATIVE_OPENING_BYTES < 2 ^ 16 by decide)
  simp only [readOpening, record, append_assoc, (reads_le _ _).bind_eq_ok, Nat.reduceMul, Reader.ok_rules,
    (reads_readSized _ _ _).eq_ok, existsAndEq]
  tauto

/-! ### Dependencies -/

/-- The operations whose intents carry dependencies. -/
def NativeOperation.isFinancial : NativeOperation → Bool
  | .financial _ => true
  | _ => false

def dependencyRecords (dependencies : List NativeOpening) : Bytes :=
  leBytes 2 dependencies.length ++ dependencies.flatMap fun o => NativeOpening.record (some o)

def readDependencies : Reader NativeWireError (List NativeOpening) := do
  let count ← takeLe .encoding 2
  Reader.require (count ≤ MAX_NATIVE_INTENT_DEPENDENCIES) .bounds
  let openings ← readOpenings count
  liftM (openings.mapM (orElseThrow NativeWireError.openingCount))

lemma mapM_orElseThrow {α ε : Type} {e : ε} : ∀ {l : List (Option α)} {l' : List α},
    l.mapM (orElseThrow e) = .ok l' ↔ l = l'.map some
  | [], l' => by cases l' <;> simp [pure_eq_ok]
  | x :: l, l' => by
    simp only [mapM_cons, ok_rules, mapM_orElseThrow]
    cases l' <;> simp

lemma reads_dependencies : Reads readDependencies dependencyRecords
    (fun l => l.length ≤ MAX_NATIVE_INTENT_DEPENDENCIES ∧ ∀ o ∈ l, o.Carried) := by
  refine .of_iff fun src l rest => ?_
  have hlt : l.length ≤ MAX_NATIVE_INTENT_DEPENDENCIES → l.length < 2 ^ 16 := fun h => lt_of_le_of_lt h (by decide)
  have hcarried : (∀ o ∈ l.map some, ∀ x ∈ o, x.Carried) ↔ ∀ o ∈ l, o.Carried := by simp
  simp only [readDependencies, readOpenings, dependencyRecords, append_assoc, (reads_le _ _).bind_eq_ok, Nat.reduceMul,
    Reader.ok_rules, (reads_many reads_opening _).bind_eq_ok, mapM_orElseThrow, existsAndEq, length_map, flatMap_map, hcarried]
  tauto

def dependencySection (financial : Bool) (dependencies : List NativeOpening) : Bytes :=
  if financial then dependencyRecords dependencies else []

def readSection (financial : Bool) : Reader NativeWireError (List NativeOpening) :=
  if financial then readDependencies else pure []

lemma reads_section (financial : Bool) : Reads (readSection financial) (dependencySection financial)
    (fun l => if financial then l.length ≤ MAX_NATIVE_INTENT_DEPENDENCIES ∧ ∀ o ∈ l, o.Carried else l = []) := by
  cases financial with
  | true => exact reads_dependencies
  | false =>
    refine ⟨fun l rest h => ?_, fun src l rest h => ?_⟩
    · obtain rfl : l = [] := h
      rfl
    · obtain ⟨rfl, rfl⟩ := Reader.pure_eq_ok.mp h
      exact ⟨rfl, rfl⟩

/-! ### Intents -/

namespace NativeIntent

section
variable (H : NativeHash) (hashPages : List TxBody → Digest)

def recordLength : Option NativeOpening → ℕ
  | none => 2
  | some o => 2 + (12 + 16 * o.kind.fieldCount)

def authorizationWireOffset (i : NativeIntent) : Except NativeWireError ℕ := do
  let facts ← i.validateStructure H hashPages
  let dependencies :=
    if facts.operation.isFinancial then 2 + (i.dependencies.map fun o => recordLength (some o)).sum else 0
  return NATIVE_INTENT_PREFIX_BYTES + dependencies + i.pages.length * TX_BODY_WIRE_SIZE +
    ((i.inputOpenings ++ i.outputOpenings).map recordLength).sum

/-- Write the dependencies of an intent whose header has a financial code. -/
def writeDependencies (i : NativeIntent) (code : ℕ) : Except NativeWireError Bytes :=
  if 32 ≤ code then do
    let records ← i.dependencies.mapM fun o => writeOpening (some o)
    return leBytes 2 i.dependencies.length ++ records.flatten
  else .ok []

def toBytes (i : NativeIntent) : Except NativeWireError Bytes := do
  let _ ← i.authorizationWireOffset H hashPages
  let openings ← (i.inputOpenings ++ i.outputOpenings).mapM writeOpening
  let header ← orElseThrow .bounds i.pages.head?
  let dependencies ← i.writeDependencies header.firstOutput.amount
  return NATIVE_INTENT_MAGIC ++ leBytes 2 NATIVE_SPEND_VERSION ++ leBytes 2 i.pages.length ++
    leBytes 4 i.authorizationBytes.length ++ i.pages.flatMap encodePageBody ++ openings.flatten ++ dependencies ++
    i.authorizationBytes

/-- The reader behind the magic: the authorization is what is left. -/
def decode : Reader NativeWireError NativeIntent := do
  let version ← takeLe .encoding 2
  Reader.require (version = NATIVE_SPEND_VERSION) .version
  let pageCount ← takeLe .encoding 2
  let authCount ← takeLe .encoding 4
  let src ← Reader.remaining
  Reader.require (2 ≤ pageCount ∧ pageCount ≤ MAX_PAGED_SPEND_PAGES ∧ authCount ≤ MAX_TX_AUTHORIZATION_BYTES ∧
    pageCount * TX_BODY_WIRE_SIZE + authCount ≤ src.length) .bounds
  let pages ← readMany (decodePageBody.mapError .page) pageCount
  let facts ← liftM (validateNativePages hashPages pages)
  let inputOpenings ← readOpenings facts.liveInputs
  let outputOpenings ← readOpenings facts.liveOutputs
  let dependencies ← readSection facts.operation.isFinancial
  let authorizationBytes ← Reader.remaining
  Reader.require (authorizationBytes.length = authCount) .encoding
  let intent : NativeIntent := ⟨pages, inputOpenings, outputOpenings, dependencies, authorizationBytes⟩
  let _ ← liftM (intent.validateStructure H hashPages)
  return intent

def fromBytes (bytes : Bytes) : Except NativeWireError NativeIntent := do
  require (NATIVE_INTENT_PREFIX_BYTES ≤ bytes.length ∧ bytes.length ≤ MAX_NATIVE_INTENT_BYTES ∧
    bytes.take 8 = NATIVE_INTENT_MAGIC) .encoding
  let (intent, _) ← (decode H hashPages).run (bytes.drop 8)
  return intent

/-! ### What an accepted intent satisfies -/

/-- The fields of an intent stand for machine words. -/
@[mk_iff] structure Fits (i : NativeIntent) : Prop where
  pages : ∀ body ∈ i.pages, body.Fits
  openings : ∀ o ∈ i.inputOpenings ++ i.outputOpenings, ∀ x ∈ o, x.Fits
  dependencies : ∀ o ∈ i.dependencies, o.Fits

instance (i : NativeIntent) : Decidable i.Fits := decidable_of_iff' _ i.fits_iff

/-- An accepted intent: its group, an opening for each live action, and not too many dependencies. -/
structure Structured (i : NativeIntent) (header : TxBody) (data : List TxBody) (facts : NativePageFacts) : Prop where
  pages_eq : i.pages = header :: data
  group : NativeGroup hashPages header data facts
  authorization : i.authorizationBytes.length ≤ MAX_TX_AUTHORIZATION_BYTES
  inputs : i.inputOpenings.length = facts.liveInputs
  outputs : i.outputOpenings.length = facts.liveOutputs
  openings : ∀ o ∈ i.inputOpenings ++ i.outputOpenings, ∀ x ∈ o, x.validate = .ok ()
  valid : ∀ o ∈ i.dependencies, o.validate = .ok ()
  dependencies_le : i.dependencies.length ≤ MAX_NATIVE_INTENT_DEPENDENCIES
  plain : facts.operation.isFinancial = false → i.dependencies = []

end

variable {H : NativeHash} {hashPages : List TxBody → Digest} {i : NativeIntent} {facts : NativePageFacts}
  {header : TxBody} {data : List TxBody}

lemma length_operandRoots_le (op : NativeOperation) : (operandRoots op).length ≤ 1 := by
  cases op with
  | financial op => exact Option.length_toList_le
  | _ => exact Nat.zero_le 1

lemma length_primaryOpenings_le (inputs outputs : List (Option NativeOpening)) :
    (primaryOpenings inputs outputs).length ≤ inputs.length + outputs.length := by
  have h := length_filterMap_le (id : Option NativeOpening → Option NativeOpening) (inputs ++ outputs)
  rwa [length_append] at h

lemma checkDependencies_inv {op : NativeOperation} (h : i.checkDependencies H op = .ok ()) :
    (∀ o ∈ i.dependencies, o.validate = .ok ()) ∧
      i.dependencies.length ≤ i.inputOpenings.length + i.outputOpenings.length + 2 ∧
      (op.isFinancial = false → i.dependencies = []) := by
  cases op with
  | financial op =>
    simp only [checkDependencies, canonicalNativeClosure, ok_rules] at h
    obtain ⟨-, closure, ⟨-, records, -, _, hclosure, -, rfl⟩, hdependencies⟩ := h
    obtain ⟨hvalid, hlen⟩ := resolveNativeClosure_dependencies hclosure
    have hprimary := length_primaryOpenings_le i.inputOpenings i.outputOpenings
    have hoperands := length_operandRoots_le (.financial op)
    rw [hdependencies, length_map] at hlen
    refine ⟨fun o ho => ?_, by omega, fun hplain => by cases hplain⟩
    rw [← hdependencies] at ho
    exact hvalid o (mem_filter.mp ho).1
  | _ =>
    have hnil : i.dependencies = [] := require_eq_ok.mp h
    rw [hnil]
    exact ⟨fun _ ho => (by cases ho), Nat.zero_le _, fun _ => rfl⟩

lemma validate_of_forM {α : Type} {actions : List α} {openings : List (Option NativeOpening)}
    {check : (α × Option NativeOpening) × ℕ → Except NativeWireError Unit}
    (hcheck : ∀ e, check e = .ok () → ∀ x ∈ e.1.2, x.validate = .ok ())
    (hlen : openings.length ≤ actions.length) (h : (actions.zip openings).zipIdx.forM check = .ok ()) :
    ∀ o ∈ openings, ∀ x ∈ o, x.validate = .ok () := by
  intro o ho
  obtain ⟨k, hk⟩ := mem_iff_getElem?.mp ho
  have hlt : k < actions.length := lt_of_lt_of_le (List.getElem?_eq_some_iff.mp hk).1 hlen
  have hmem : ((actions[k], o), k) ∈ (actions.zip openings).zipIdx := by
    rw [mk_mem_zipIdx_iff_getElem?, List.getElem?_zip_eq_some]
    exact ⟨getElem?_eq_getElem hlt, hk⟩
  exact hcheck _ (forM_eq_ok.mp h _ hmem)

lemma validateStructure_inv (h : i.validateStructure H hashPages = .ok facts) :
    ∃ header data, Structured hashPages i header data facts := by
  simp only [validateStructure, ok_rules] at h
  obtain ⟨hauth, _, hpages, ⟨hins, houts⟩, ⟨⟩, hcheckIns, ⟨⟩, hcheckOuts, ⟨⟩, hdeps, rfl⟩ := h
  obtain ⟨header, data, heq, hgroup⟩ := validateNativePages_inv hpages
  obtain ⟨hvalid, hle, hplain⟩ := checkDependencies_inv hdeps
  have htail : i.pages.tail = data := by rw [heq, tail_cons]
  have hinLen : (liveInputClaims data).length = (data.flatMap TxBody.liveInputs).length := by
    simp [liveInputClaims, length_flatMap]
  rw [htail] at hcheckIns hcheckOuts
  have hinputs : ∀ o ∈ i.inputOpenings, ∀ x ∈ o, x.validate = .ok () := by
    refine validate_of_forM (fun e he x hx => ?_) ?_ hcheckIns
    · obtain ⟨⟨action, o⟩, k⟩ := e
      cases hx
      simp only [checkInputOpening, ok_rules, checkInputBinding_eq_ok] at he
      exact he.2.1
    · rw [hinLen, hins, hgroup.liveInputs]
  have houtputs : ∀ o ∈ i.outputOpenings, ∀ x ∈ o, x.validate = .ok () := by
    refine validate_of_forM (fun e he x hx => ?_) ?_ hcheckOuts
    · obtain ⟨⟨action, o⟩, k⟩ := e
      cases hx
      simp only [checkOutputOpening, checkOutput, ok_rules] at he
      obtain ⟨-, ⟨⟩, hvalid, -⟩ := he
      exact hvalid
    · rw [houts, hgroup.liveOutputs]
      exact le_rfl
  refine ⟨header, data, heq, hgroup, hauth, hins, houts, ?_, hvalid, ?_, hplain⟩
  · exact forall_mem_append.mpr ⟨hinputs, houtputs⟩
  · have hinLe := hgroup.inputs_le
    have houtLe := hgroup.outputs_le
    rw [MAX_NATIVE_INTENT_DEPENDENCIES]
    omega

lemma isFinancial_of_decode {code : ℕ} {operand : TxOutput} {op : NativeOperation}
    (h : decodeOperation code operand = .ok op) : op.isFinancial = decide (32 ≤ code) := by
  simp only [decodeOperation, ok_rules] at h
  obtain ⟨-, h⟩ := h
  split_ifs at h with hcode
  · simp only [ok_rules] at h
    obtain ⟨op', -, rfl⟩ := h
    rw [decide_eq_true hcode]
    rfl
  · simp only [ok_rules] at h
    obtain ⟨-, -, hbase⟩ := h
    unfold decodeBase at hbase
    split at hbase
    all_goals (try split_ifs at hbase)
    all_goals (cases hbase; try rfl)

/-! ### The law of the format -/

/-- What stands before the authorization. -/
def wirePrefix (i : NativeIntent) (financial : Bool) : Bytes :=
  leBytes 2 NATIVE_SPEND_VERSION ++ leBytes 2 i.pages.length ++ leBytes 4 i.authorizationBytes.length ++
    i.pages.flatMap encodePageBody ++ (i.inputOpenings ++ i.outputOpenings).flatMap NativeOpening.record ++
    dependencySection financial i.dependencies

lemma length_flatMap_pages (pages : List TxBody) :
    (pages.flatMap encodePageBody).length = pages.length * TX_BODY_WIRE_SIZE := by
  simp only [encodePageBody, length_flatMap, length_bodyBytes, map_const', sum_replicate_nat]

lemma Structured.header_financial (h : Structured hashPages i header data facts) :
    facts.operation.isFinancial = decide (32 ≤ header.firstOutput.amount) :=
  isFinancial_of_decode h.group.operation

lemma toBytes_eq_ok {bytes : Bytes} : i.toBytes H hashPages = .ok bytes ↔
    ∃ facts, i.validateStructure H hashPages = .ok facts ∧
      bytes = NATIVE_INTENT_MAGIC ++ i.wirePrefix facts.operation.isFinancial ++ i.authorizationBytes := by
  -- a validated intent is written without a further error
  have hwrite : ∀ facts, i.validateStructure H hashPages = .ok facts → i.toBytes H hashPages =
      .ok (NATIVE_INTENT_MAGIC ++ i.wirePrefix facts.operation.isFinancial ++ i.authorizationBytes) := by
    intro facts hvalid
    obtain ⟨header, data, h⟩ := validateStructure_inv hvalid
    have hoffset : ∃ offset, i.authorizationWireOffset H hashPages = .ok offset :=
      ⟨_, (bind_of_ok hvalid).trans rfl⟩
    obtain ⟨offset, hoffset⟩ := hoffset
    have hopenings := mapM_eq_map (f := writeOpening) (l := i.inputOpenings ++ i.outputOpenings)
      fun o ho => writeOpening_ok (h.openings o ho)
    have hdependencies : i.writeDependencies header.firstOutput.amount =
        .ok (dependencySection facts.operation.isFinancial i.dependencies) := by
      rw [h.header_financial, writeDependencies, dependencySection]
      by_cases hcode : 32 ≤ header.firstOutput.amount
      · rw [if_pos hcode, decide_eq_true hcode, if_pos rfl, bind_of_ok (mapM_eq_map fun o ho =>
          writeOpening_ok (o := some o) fun x hx => by cases hx; exact h.valid o ho)]
        rfl
      · rw [if_neg hcode, decide_eq_false hcode, if_neg Bool.false_ne_true]
    have hhead : orElseThrow NativeWireError.bounds i.pages.head? = .ok header := by rw [h.pages_eq]; rfl
    rw [toBytes, bind_of_ok hoffset, bind_of_ok hopenings, bind_of_ok hhead, bind_of_ok hdependencies]
    rfl
  constructor
  · intro h
    have hoffset := h
    simp only [toBytes, authorizationWireOffset, bind_eq_ok] at hoffset
    obtain ⟨_, ⟨facts, hvalid, -⟩, -⟩ := hoffset
    refine ⟨facts, hvalid, ?_⟩
    rw [hwrite facts hvalid] at h
    exact (Except.ok.inj h).symm
  · rintro ⟨facts, hvalid, rfl⟩
    exact hwrite facts hvalid

lemma validateNativePages_of_structure (h : i.validateStructure H hashPages = .ok facts) :
    validateNativePages hashPages i.pages = .ok facts := by
  simp only [validateStructure, ok_rules] at h
  obtain ⟨-, _, hfacts, -, -, -, -, -, -, -, rfl⟩ := h
  exact hfacts

lemma decode_eq_ok {src rest : Bytes} : (decode H hashPages).run src = .ok (i, rest) ↔
    (i.Fits ∧ rest = i.authorizationBytes) ∧ ∃ facts, i.validateStructure H hashPages = .ok facts ∧
      src = i.wirePrefix facts.operation.isFinancial ++ i.authorizationBytes := by
  have hpage : Reads (decodePageBody.mapError NativeWireError.page) encodePageBody TxBody.Fits :=
    reads_pageBody.mapError _
  obtain ⟨pages, ins, outs, deps, auth⟩ := i
  simp only [decode, readOpenings, wirePrefix, flatMap_append, append_assoc, (reads_le _ _).bind_eq_ok, Nat.reduceMul,
    Reader.ok_rules, (reads_many hpage _).bind_eq_ok, (reads_many reads_opening _).bind_eq_ok, (reads_section _).bind_eq_ok,
    existsAndEq, mk.injEq, true_and, and_true]
  constructor
  · rintro ⟨facts, facts', ⟨-, rfl⟩, -, -, -, hpages, hfacts, ⟨-, hins⟩, ⟨-, houts⟩, hdeps, hvalid, rfl⟩
    have hsame := validateNativePages_of_structure hvalid
    rw [hfacts] at hsame
    cases hsame
    refine ⟨⟨⟨hpages, ?_, fun o ho => ?_⟩, rfl⟩, facts, hvalid, rfl⟩
    · exact forall_mem_append.mpr ⟨fun o ho x hx => (hins o ho x hx).1, fun o ho x hx => (houts o ho x hx).1⟩
    · split_ifs at hdeps
      · exact (hdeps.2 o ho).1
      · rw [hdeps] at ho
        cases ho
  · rintro ⟨⟨hfits, rfl⟩, facts, hvalid, rfl⟩
    obtain ⟨header, data, h⟩ := validateStructure_inv hvalid
    have hpages : pages.length = data.length + 1 := congrArg length h.pages_eq
    obtain ⟨hmin, hmax⟩ := h.group.count
    have hcarried : ∀ o ∈ ins ++ outs, ∀ x ∈ o, x.Carried := fun o ho x hx => ⟨hfits.openings o ho x hx, h.openings o ho x hx⟩
    obtain ⟨hins, houts⟩ := forall_mem_append.mp hcarried
    refine ⟨facts, facts, ⟨by decide, rfl⟩, lt_of_le_of_lt (hpages.trans_le hmax) (by decide),
      lt_of_le_of_lt h.authorization (by decide), ⟨by omega, by omega, h.authorization, ?_⟩, hfits.pages,
      validateNativePages_of_structure hvalid, ⟨h.inputs, hins⟩, ⟨h.outputs, houts⟩, ?_, hvalid, rfl⟩
    · simp only [length_append, length_flatMap_pages]
      omega
    · split_ifs with hfinancial
      · exact ⟨h.dependencies_le, fun o ho => ⟨hfits.dependencies o ho, h.valid o ho⟩⟩
      · exact h.plain (Bool.eq_false_of_not_eq_true hfinancial)

/-! ### Lengths -/

lemma length_records_le {l : List (Option NativeOpening)} (h : ∀ o ∈ l, ∀ x ∈ o, x.validate = .ok ()) :
    (l.flatMap NativeOpening.record).length ≤ l.length * (2 + MAX_NATIVE_OPENING_BYTES) :=
  length_flatMap_le fun o ho => length_record_le (h o ho)

lemma length_record {o : Option NativeOpening} (h : ∀ x ∈ o, x.validate = .ok ()) :
    (NativeOpening.record o).length = recordLength o := by
  cases o with
  | none => rfl
  | some x =>
    rw [record, optBytes, length_append, length_leBytes,
      length_wireBytes (h x rfl), recordLength, NATIVE_OPENING_HEADER_BYTES]

lemma length_flatMap_records {l : List (Option NativeOpening)} (h : ∀ o ∈ l, ∀ x ∈ o, x.validate = .ok ()) :
    (l.flatMap NativeOpening.record).length = (l.map recordLength).sum := by
  rw [length_flatMap]
  exact congrArg sum (map_congr_left fun o ho => length_record (h o ho))

lemma length_section_le (financial : Bool) {l : List NativeOpening} (h : ∀ o ∈ l, o.validate = .ok ()) :
    (dependencySection financial l).length ≤ 2 + l.length * (2 + MAX_NATIVE_OPENING_BYTES) := by
  have hrecords := length_records_le (l := l.map some) (forall_mem_map.mpr fun o ho x hx => by cases hx; exact h o ho)
  rw [flatMap_map, length_map] at hrecords
  cases financial with
  | false => exact Nat.zero_le _
  | true =>
    rw [dependencySection, if_pos rfl, dependencyRecords, length_append, length_leBytes]
    omega

lemma length_section (financial : Bool) {l : List NativeOpening} (h : ∀ o ∈ l, o.validate = .ok ()) :
    (dependencySection financial l).length =
      if financial then 2 + (l.map fun o => recordLength (some o)).sum else 0 := by
  have hrecords := length_flatMap_records (l := l.map some)
    (forall_mem_map.mpr fun o ho x hx => by cases hx; exact h o ho)
  rw [flatMap_map, map_map] at hrecords
  cases financial with
  | false => rfl
  | true =>
    rw [dependencySection, if_pos rfl, dependencyRecords, length_append, length_leBytes, hrecords]
    rfl

/-- The authorization stands where `authorizationWireOffset` says. -/
theorem authorizationWireOffset_eq (hvalid : i.validateStructure H hashPages = .ok facts) :
    i.authorizationWireOffset H hashPages =
      .ok (NATIVE_INTENT_MAGIC ++ i.wirePrefix facts.operation.isFinancial).length := by
  obtain ⟨header, data, h⟩ := validateStructure_inv hvalid
  refine (bind_of_ok hvalid).trans (congrArg Except.ok ?_)
  simp only [wirePrefix, length_append, length_leBytes, length_flatMap_pages, length_flatMap_records h.openings,
    length_section _ h.valid, NATIVE_INTENT_PREFIX_BYTES, NATIVE_INTENT_MAGIC, length_cons, length_nil]
  omega

lemma length_wireBytes_le (hvalid : i.validateStructure H hashPages = .ok facts) :
    (NATIVE_INTENT_MAGIC ++ i.wirePrefix facts.operation.isFinancial ++ i.authorizationBytes).length ≤
      MAX_NATIVE_INTENT_BYTES := by
  obtain ⟨header, data, h⟩ := validateStructure_inv hvalid
  have hpages : i.pages.length * TX_BODY_WIRE_SIZE ≤ MAX_PAGED_SPEND_PAGES * TX_BODY_WIRE_SIZE := by
    rw [h.pages_eq, length_cons]
    exact Nat.mul_le_mul_right _ h.group.count.2
  have hopenings : ((i.inputOpenings ++ i.outputOpenings).flatMap record).length ≤
      (MAX_PAGED_SPEND_INPUTS + MAX_PAGED_SPEND_OUTPUTS) * (2 + MAX_NATIVE_OPENING_BYTES) := by
    refine (length_records_le h.openings).trans (Nat.mul_le_mul_right _ ?_)
    rw [length_append, h.inputs, h.outputs]
    exact Nat.add_le_add h.group.inputs_le h.group.outputs_le
  have hsection := length_section_le facts.operation.isFinancial h.valid
  have hdependencies := Nat.mul_le_mul_right (2 + MAX_NATIVE_OPENING_BYTES) h.dependencies_le
  have hauth := h.authorization
  simp only [wirePrefix, length_append, length_leBytes, length_flatMap_pages, NATIVE_INTENT_MAGIC,
    length_cons, length_nil]
  rw [MAX_NATIVE_INTENT_BYTES, NATIVE_INTENT_PREFIX_BYTES]
  omega

/-- **The wire format of an intent.** -/
theorem fromBytes_eq_ok {bytes : Bytes} : fromBytes H hashPages bytes = .ok i ↔
    i.Fits ∧ ∃ facts, i.validateStructure H hashPages = .ok facts ∧
      bytes = NATIVE_INTENT_MAGIC ++ i.wirePrefix facts.operation.isFinancial ++ i.authorizationBytes := by
  simp only [fromBytes, ok_rules, Prod.exists, decode_eq_ok]
  constructor
  · rintro ⟨⟨-, -, hmagic⟩, i', rest, ⟨⟨hfits, rfl⟩, facts, hvalid, hsrc⟩, rfl⟩
    refine ⟨hfits, facts, hvalid, ?_⟩
    rw [append_assoc, ← hsrc, ← hmagic, take_append_drop]
  · rintro ⟨hfits, facts, hvalid, rfl⟩
    have hlen := length_wireBytes_le hvalid
    have hmagic : NATIVE_INTENT_MAGIC.length = 8 := rfl
    refine ⟨⟨?_, hlen, ?_⟩, i, i.authorizationBytes, ⟨⟨hfits, rfl⟩, facts, hvalid, ?_⟩, rfl⟩
    · simp only [wirePrefix, length_append, length_leBytes, hmagic, NATIVE_INTENT_PREFIX_BYTES]
      omega
    · rw [append_assoc, take_left' hmagic]
    · rw [append_assoc, drop_left' hmagic]

/-- **Native intents are canonical**: read back from their bytes within the limit of the wire, with the authorization
at `authorizationWireOffset`. -/
theorem nativeIntent_format (H : NativeHash) (hashPages : List TxBody → Digest) :
    (∀ (i : NativeIntent) (facts : NativePageFacts), i.Fits → i.validateStructure H hashPages = .ok facts →
      ∃ bytes offset, i.toBytes H hashPages = .ok bytes ∧ fromBytes H hashPages bytes = .ok i ∧
        bytes.length ≤ MAX_NATIVE_INTENT_BYTES ∧ i.authorizationWireOffset H hashPages = .ok offset ∧
        offset + i.authorizationBytes.length = bytes.length ∧ bytes.drop offset = i.authorizationBytes) ∧
    ∀ (bytes : Bytes) (i : NativeIntent), fromBytes H hashPages bytes = .ok i → i.toBytes H hashPages = .ok bytes := by
  refine ⟨fun i facts hfits hvalid => ?_, fun bytes i h => ?_⟩
  · refine ⟨_, _, toBytes_eq_ok.mpr ⟨facts, hvalid, rfl⟩, fromBytes_eq_ok.mpr ⟨hfits, facts, hvalid, rfl⟩,
      length_wireBytes_le hvalid, authorizationWireOffset_eq hvalid, length_append.symm,
      drop_left⟩
  · obtain ⟨-, hbytes⟩ := fromBytes_eq_ok.mp h
    exact toBytes_eq_ok.mpr hbytes

/-- A hash that tells balances apart by their units. -/
def unitsHash : NativeHash :=
  { NativeHash.plain with root := fun o => match o with
                                  | .tokenBalance b => b.units
                                  | _ => 1 }

def balanceOf (owner : Address) (units : ℕ) : NativeOpening :=
  .tokenBalance { asset := 1, owner := owner, units := units, unlockHeight := 0 }

/-- Forty of a hundred units go to another owner; a coin pays the fee. -/
def transferLayout : Except NativeWireError NativeIntent :=
  buildClaimsLayout (fun _ => 1) ⟨1, 10, 1, 500⟩ 1 (.transferToken 1)
    [⟨⟨1, 500, 7⟩, 1, none⟩, ⟨⟨2, 0, NATIVE_CREATION_TAG + 1⟩, 100, some (balanceOf 1 100)⟩]
    [⟨⟨3, 0, 40⟩, some (balanceOf 2 40)⟩, ⟨⟨4, 0, 60⟩, some (balanceOf 1 60)⟩] false

theorem nativeIntent_format_transfer : ∃ i bytes offset, transferLayout = .ok i ∧
    i.toBytes unitsHash (fun _ => 1) = .ok bytes ∧ fromBytes unitsHash (fun _ => 1) bytes = .ok i ∧
    bytes.length ≤ MAX_NATIVE_INTENT_BYTES ∧ i.authorizationWireOffset unitsHash (fun _ => 1) = .ok offset := by
  have hlayout : ∀ i ∈ transferLayout.toOption, i.Fits ∧ (i.validateStructure unitsHash fun _ => 1).isOk = true := by
    decide +kernel
  obtain ⟨i, hi⟩ := exists_ok_of_isOk (show transferLayout.isOk = true by decide +kernel)
  rw [hi] at hlayout
  obtain ⟨hfits, hvalid⟩ := hlayout i rfl
  obtain ⟨facts, hfacts⟩ := exists_ok_of_isOk hvalid
  obtain ⟨bytes, offset, hto, hfrom, hlength, hoffset, -⟩ := (nativeIntent_format unitsHash fun _ => 1).1 i facts hfits hfacts
  exact ⟨i, bytes, offset, hi, hto, hfrom, hlength, hoffset⟩

end NativeIntent

end Noid.Tx
