import Noid.Lib.Greedy
import Noid.Tx.LaunchPayout
import Noid.Tx.Trade

/-! # The sequencing of a trade set

`SequencingPlan.execute` is a greedy loop over the admitted intents.  An admitted set is determined by its intents: no two
of them share a funding slot, so their priorities are distinct and the queue does not depend on the order of submission. -/

namespace Noid.Tx

open Noid.Lib Noid.Lib.Greedy List

section
variable (H : NativeHash) (T : TradeHash)

/-! ### The loop -/

/-- The side that is taken first: buys while the price is at most the initial one. -/
def preferredSide (initial current : Price) : LaunchSide := if current.atMost initial then .buy else .sell

/-- One attempt: a fill with the authorisation of the intent, or a decline. -/
def attemptTrade (engine : Engine) (i : TradeIntent) :
    Except SequencingError (Option ((Digest × TradeOutcome) × Engine)) :=
  match engine.apply H i.policy.side i.policy.grossInput i.policy.minimumOutput with
  | .ok (outcome, engine) => do
    let id ← (i.authorizationId H T).mapError .policy
    return some ((id, outcome), engine)
  | .error e => if declinable e then .ok none else .error e

/-- The loop of a trade set over the intents. -/
def tradeLoop (initial : Price) : Loop Engine TradeIntent (Digest × TradeOutcome) SequencingError where
  prefer engine := do
    let current ← engine.price
    return fun i => decide (i.policy.side = preferredSide initial current)
  attempt := attemptTrade H T

/-- The intents on the side that comes next. -/
abbrev preferred (initial current : Price) (q : QueuedIntent) : Bool :=
  decide (q.intent.policy.side = preferredSide initial current)

/-- The loop of a trade set over the admitted intents. -/
def queueLoop (initial : Price) : Loop Engine QueuedIntent (Digest × TradeOutcome) SequencingError :=
  (tradeLoop H T initial).comap QueuedIntent.intent

/-- A fill of the queue. -/
abbrev QueueFill := Fill Engine QueuedIntent (Digest × TradeOutcome)

def sequenced (f : QueueFill) : SequencedFill :=
  ⟨f.item.index, f.outcome.1, f.outcome.2⟩

lemma sequenced_outcome (f : QueueFill) :
    (sequenced f).outcome = f.outcome.2 := rfl

variable {H T} {initial : Price}

lemma tradeLoop_prefer {engine : Engine} {p : TradeIntent → Bool}
    (h : (tradeLoop H T initial).prefer engine = .ok p) :
    ∃ current, engine.price = .ok current ∧ p = fun i => decide (i.policy.side = preferredSide initial current) := by
  simp only [tradeLoop, ok_rules] at h
  obtain ⟨current, hcurrent, rfl⟩ := h
  exact ⟨current, hcurrent, rfl⟩

lemma attemptTrade_eq_some {engine engine' : Engine} {i : TradeIntent} {o : Digest × TradeOutcome}
    (h : attemptTrade H T engine i = .ok (some (o, engine'))) :
    engine.apply H i.policy.side i.policy.grossInput i.policy.minimumOutput = .ok (o.2, engine') ∧
      i.authorizationId H T = .ok o.1 := by
  unfold attemptTrade at h
  cases happly : engine.apply H i.policy.side i.policy.grossInput i.policy.minimumOutput with
  | error e =>
    simp only [happly] at h
    split_ifs at h
    simp at h
  | ok x =>
    simp only [happly, ok_rules, Option.some.injEq, Prod.mk.injEq] at h
    obtain ⟨id, hid, rfl, rfl⟩ := h
    exact ⟨rfl, hid⟩

namespace SequencingPlan

variable {engine engine' : Engine} {remaining us : List QueuedIntent}
  {fs : List QueueFill}

/-- One turn of the loop, with its attempt. -/
theorem run_succ (hne : remaining ≠ []) (fuel : ℕ) (fills : List SequencedFill) (unfilled : List ℕ) :
    run H T initial (fuel + 1) engine remaining fills unfilled = (do
      let current ← engine.price
      match Greedy.pick (preferred initial current) remaining with
      | none => .ok (engine, fills, unfilled)
      | some (q, rest) => do
        let result ← attemptTrade H T engine q.intent
        match result with
        | some (o, engine) => run H T initial fuel engine rest (fills ++ [⟨q.index, o.1, o.2⟩]) unfilled
        | none => run H T initial fuel engine rest fills (unfilled ++ [q.index])) := by
  rw [run, if_neg hne]
  congr 1
  funext current
  change (match Greedy.pick (preferred initial current) remaining with
    | none => _
    | some (q, rest) => _) = _
  cases Greedy.pick (preferred initial current) remaining with
  | none => rfl
  | some x =>
    obtain ⟨q, rest⟩ := x
    simp only [attemptTrade]
    cases engine.apply H q.intent.policy.side q.intent.policy.grossInput q.intent.policy.minimumOutput with
    | error e =>
      simp only
      split_ifs <;> rfl
    | ok x =>
      cases (q.intent.authorizationId H T).mapError SequencingError.policy <;> rfl

lemma run_pick {p : QueuedIntent → Bool} {a : QueuedIntent} {rest : List QueuedIntent} {fuel : ℕ}
    (hprefer : (queueLoop H T initial).prefer engine = .ok p) (hpick : Greedy.pick p remaining = some (a, rest))
    (hlen : remaining.length ≤ fuel) (fills : List SequencedFill) (unfilled : List ℕ) :
    ∃ n, rest.length ≤ n ∧ run H T initial fuel engine remaining fills unfilled = (do
      match ← (queueLoop H T initial).attempt engine a with
      | some (o, engine) => run H T initial n engine rest (fills ++ [⟨a.index, o.1, o.2⟩]) unfilled
      | none => run H T initial n engine rest fills (unfilled ++ [a.index])) := by
  obtain ⟨q, hq, rfl⟩ := Loop.prefer_comap hprefer
  obtain ⟨current, hcurrent, rfl⟩ := tradeLoop_prefer hq
  have hperm := (pick_perm hpick).length_eq
  rw [length_cons] at hperm
  obtain ⟨n, rfl⟩ : ∃ n, fuel = n + 1 := ⟨fuel - 1, by omega⟩
  change Greedy.pick (preferred initial current) remaining = _ at hpick
  rw [run_succ (ne_nil_of_length_eq_add_one hperm), bind_of_ok hcurrent, hpick]
  exact ⟨n, by omega, rfl⟩

lemma run_of_runs (h : (queueLoop H T initial).Runs engine remaining engine' fs us) :
    ∀ {fuel : ℕ} (fills : List SequencedFill) (unfilled : List ℕ), remaining.length ≤ fuel →
      run H T initial fuel engine remaining fills unfilled =
        .ok (engine', fills ++ fs.map sequenced, unfilled ++ us.map (·.index)) := by
  induction h with
  | done s =>
    intro fuel fills unfilled _
    cases fuel <;> simp [run]
  | fill hprefer hpick hattempt _ ih =>
    intro fuel fills unfilled hlen
    obtain ⟨n, hn, hrun⟩ := run_pick hprefer hpick hlen fills unfilled
    rw [hrun, bind_of_ok hattempt]
    simp [ih _ _ hn, sequenced]
  | decline hprefer hpick hattempt _ ih =>
    intro fuel fills unfilled hlen
    obtain ⟨n, hn, hrun⟩ := run_pick hprefer hpick hlen fills unfilled
    rw [hrun, bind_of_ok hattempt]
    simp [ih _ _ hn]

lemma runs_of_run :
    ∀ {fuel : ℕ} {engine : Engine} {remaining : List QueuedIntent} {fills fills' : List SequencedFill}
      {unfilled unfilled' : List ℕ}, remaining.length ≤ fuel →
      run H T initial fuel engine remaining fills unfilled = .ok (engine', fills', unfilled') →
      ∃ fs us, (queueLoop H T initial).Runs engine remaining engine' fs us := by
  intro fuel
  induction fuel with
  | zero =>
    intro engine remaining fills fills' unfilled unfilled' hlen h
    obtain rfl := length_eq_zero_iff.mp (Nat.le_zero.mp hlen)
    obtain ⟨rfl, -, -⟩ := h
    exact ⟨[], [], .done _⟩
  | succ fuel ih =>
    intro engine remaining fills fills' unfilled unfilled' hlen h
    by_cases hne : remaining = []
    · subst hne
      obtain ⟨rfl, -, -⟩ := h
      exact ⟨[], [], .done _⟩
    · rw [run_succ hne, bind_eq_ok] at h
      obtain ⟨current, hcurrent, h⟩ := h
      obtain ⟨a, rest, hpick⟩ := exists_pick
        (preferred initial current) hne
      have hperm := (pick_perm hpick).length_eq
      rw [length_cons] at hperm
      have hprefer : (queueLoop H T initial).prefer engine =
          .ok (preferred initial current) := by
        simp only [queueLoop, Loop.comap, tradeLoop, bind_of_ok hcurrent]
        rfl
      rw [hpick] at h
      simp only [bind_eq_ok] at h
      obtain ⟨result, hattempt, h⟩ := h
      cases result with
      | none =>
        obtain ⟨fs, us, hruns⟩ := ih (by omega) h
        exact ⟨fs, a :: us, .decline hprefer hpick hattempt hruns⟩
      | some x =>
        obtain ⟨fs, us, hruns⟩ := ih (by omega) h
        exact ⟨⟨engine, a, x.1⟩ :: fs, us, .fill hprefer hpick hattempt hruns⟩

lemma run_eq_ok {fills : List SequencedFill} {unfilled : List ℕ} :
    run H T initial remaining.length engine remaining [] [] = .ok (engine', fills, unfilled) ↔
      ∃ fs us, (queueLoop H T initial).Runs engine remaining engine' fs us ∧
        fills = fs.map sequenced ∧ unfilled = us.map (·.index) := by
  constructor
  · intro h
    obtain ⟨fs, us, hruns⟩ := runs_of_run le_rfl h
    rw [run_of_runs hruns [] [] le_rfl] at h
    simp only [nil_append, Except.ok.injEq, Prod.mk.injEq, true_and] at h
    exact ⟨fs, us, hruns, h.1.symm, h.2.symm⟩
  · rintro ⟨fs, us, hruns, rfl, rfl⟩
    simpa using run_of_runs hruns [] [] le_rfl

end SequencingPlan

/-! ### The queue -/

section
variable (H : NativeHash) (T : TradeHash) (boundary : TradeBoundary)

def priorityOf (i : TradeIntent) : FundingPriority :=
  match i.fundingPriority H T boundary.parentId with
  | .ok p => p
  | .error _ => ⟨0, 0, 0⟩

/-- What admission demands of one intent. -/
def Admissible (asset : AssetId) (i : TradeIntent) : Prop :=
  (∃ totals, i.checked H boundary.chain boundary.epochAnchor boundary.height = .ok totals) ∧
    i.policy.asset = asset ∧ i.fundingPriority H T boundary.parentId = .ok (priorityOf H T boundary i)

def fundingSlots (intents : List TradeIntent) : List ℕ :=
  (intents.flatMap (·.funding)).map (·.input.slotIndex)

/-- What admission demands of a set of intents. -/
def Admitted (asset : AssetId) (intents : List TradeIntent) : Prop :=
  (∀ i ∈ intents, Admissible H T boundary asset i) ∧ (fundingSlots intents).Nodup

/-- The intents of a set under their indices and priorities. -/
def indexed (index : ℕ) (intents : List TradeIntent) : List QueuedIntent :=
  (intents.zipIdx index).map fun x => ⟨x.2, x.1, priorityOf H T boundary x.1⟩

/-- Intents are ordered by their priority. -/
def Before (a b : TradeIntent) : Prop := (priorityOf H T boundary a).key ≤ (priorityOf H T boundary b).key

instance : DecidableRel (Before H T boundary) := fun a b =>
  inferInstanceAs (Decidable ((priorityOf H T boundary a).key ≤ (priorityOf H T boundary b).key))

instance : Std.Total (Before H T boundary) := ⟨fun a _ => le_total (priorityOf H T boundary a).key _⟩

instance : IsTrans TradeIntent (Before H T boundary) := ⟨fun _ _ _ => le_trans⟩

def queue (intents : List TradeIntent) : List QueuedIntent :=
  (indexed H T boundary 0 intents).insertionSort fun a b => a.priority.key ≤ b.priority.key

end

variable {boundary : TradeBoundary} {asset : AssetId} {intents intents' : List TradeIntent}

lemma fundingSlots_cons (i : TradeIntent) (l : List TradeIntent) :
    fundingSlots (i :: l) = i.funding.map (·.input.slotIndex) ++ fundingSlots l := by
  simp [fundingSlots]

lemma fundingSlots_perm (h : intents.Perm intents') : (fundingSlots intents).Perm (fundingSlots intents') :=
  (h.flatMap_right _).map _

lemma Admitted.perm (h : Admitted H T boundary asset intents) (hperm : intents.Perm intents') :
    Admitted H T boundary asset intents' :=
  ⟨fun i hi => h.1 i (hperm.mem_iff.mpr hi), (fundingSlots_perm hperm).nodup_iff.mp h.2⟩

lemma Admitted.sublist {l : List TradeIntent} (h : Admitted H T boundary asset intents) (hl : l.Sublist intents) :
    Admitted H T boundary asset l := by
  refine ⟨fun i hi => h.1 i (hl.subset hi), ?_⟩
  exact h.2.sublist ((hl.flatMap _).map _)

lemma priorityOf_eq {i : TradeIntent} {p : FundingPriority}
    (h : i.fundingPriority H T boundary.parentId = .ok p) : priorityOf H T boundary i = p := by
  simp [priorityOf, h]

/-- Admission succeeds exactly on the sets it admits, and gives them their indices. -/
theorem SequencingPlan.admitAll_eq_ok :
    ∀ {intents : List TradeIntent} {index : ℕ} {slots : List ℕ} {q : List QueuedIntent},
      admitAll H T boundary asset index slots intents = .ok q ↔
        Admitted H T boundary asset intents ∧ (∀ slot ∈ fundingSlots intents, slot ∉ slots) ∧
          q = indexed H T boundary index intents
  | [], index, slots, q => by simp [admitAll, Admitted, fundingSlots, indexed, eq_comm]
  | i :: rest, index, slots, q => by
    simp only [admitAll, ok_rules, eachFresh_eq_ok, admitAll_eq_ok, Admitted, fundingSlots_cons,
      nodup_append, mem_append, forall_mem_cons, Admissible, indexed, zipIdx_cons,
      map_cons]
    constructor
    · rintro ⟨totals, hchecked, hasset, slots', ⟨hnd, hfresh, -, rfl⟩, p, hp, q, ⟨⟨hall, hndr⟩, hslots, rfl⟩, rfl⟩
      rw [priorityOf_eq hp]
      simp only [mem_append, mem_reverse, not_or] at hslots
      refine ⟨⟨⟨⟨⟨totals, hchecked⟩, hasset, hp⟩, hall⟩, hnd, hndr, ?_⟩, ?_, rfl⟩
      · intro a ha b hb hab
        exact (hslots b hb).1 (hab ▸ ha)
      · rintro slot (hslot | hslot)
        · obtain ⟨c, hc, rfl⟩ := mem_map.mp hslot
          exact hfresh c hc
        · exact (hslots slot hslot).2
    · rintro ⟨⟨⟨⟨⟨totals, hchecked⟩, hasset, hp⟩, hall⟩, hnd, hndr, hdisj⟩, hslots, rfl⟩
      refine ⟨totals, hchecked, hasset, _, ⟨hnd, ?_, by simp, rfl⟩, _, hp, _, ⟨⟨hall, hndr⟩, ?_, rfl⟩, rfl⟩
      · intro c hc
        exact hslots _ (.inl (mem_map_of_mem hc))
      · intro slot hslot
        simp only [mem_append, mem_reverse, not_or]
        exact ⟨fun hmem => hdisj slot hmem slot hslot rfl, hslots slot (.inr hslot)⟩

lemma TradeIntent.fundingPriority_slot {i : TradeIntent} {parentId : Digest} {p : FundingPriority}
    (h : i.fundingPriority H T parentId = .ok p) : p.slotIndex ∈ i.funding.map (·.input.slotIndex) := by
  simp only [fundingPriority, ok_rules] at h
  obtain ⟨-, -, -, anchor, hanchor, rfl⟩ := h
  have hmem := argmin_mem (Option.mem_def.mpr hanchor)
  exact mem_map_of_mem (mem_of_mem_filter hmem)

lemma eq_of_shared_slot : ∀ {l : List TradeIntent} {a b : TradeIntent} {slot : ℕ}, (fundingSlots l).Nodup →
    a ∈ l → b ∈ l → slot ∈ a.funding.map (·.input.slotIndex) → slot ∈ b.funding.map (·.input.slotIndex) → a = b
  | [], _, _, _, _, ha, _, _, _ => by cases ha
  | i :: l, a, b, slot, hnd, ha, hb, hsa, hsb => by
    rw [fundingSlots_cons, nodup_append] at hnd
    have hmem : ∀ x ∈ l, slot ∈ x.funding.map (·.input.slotIndex) → slot ∈ fundingSlots l := by
      intro x hx hs
      obtain ⟨c, hc, rfl⟩ := mem_map.mp hs
      exact mem_map_of_mem (mem_flatMap.mpr ⟨x, hx, hc⟩)
    rcases mem_cons.mp ha with rfl | ha' <;> rcases mem_cons.mp hb with rfl | hb'
    · rfl
    · exact absurd rfl (hnd.2.2 slot hsa slot (hmem b hb' hsb))
    · exact absurd rfl (hnd.2.2 slot hsb slot (hmem a ha' hsa))
    · exact eq_of_shared_slot hnd.2.1 ha' hb' hsa hsb

lemma FundingPriority.key_injective : Function.Injective FundingPriority.key := by
  rintro ⟨d, c, s⟩ ⟨d', c', s'⟩ h
  simpa [key] using h

lemma Admitted.before_antisymm (h : Admitted H T boundary asset intents) {a b : TradeIntent}
    (ha : a ∈ intents) (hb : b ∈ intents) (hab : Before H T boundary a b) (hba : Before H T boundary b a) :
    a = b := by
  have heq : priorityOf H T boundary a = priorityOf H T boundary b :=
    FundingPriority.key_injective (le_antisymm hab hba)
  have hsa := TradeIntent.fundingPriority_slot (h.1 a ha).2.2
  have hsb := TradeIntent.fundingPriority_slot (h.1 b hb).2.2
  exact eq_of_shared_slot h.2 ha hb hsa (heq ▸ hsb)

lemma queue_intents (intents : List TradeIntent) :
    (queue H T boundary intents).map (·.intent) = intents.insertionSort (Before H T boundary) := by
  have hmap : (indexed H T boundary 0 intents).map (·.intent) = intents := by
    simp [indexed, Function.comp_def]
  rw [queue, map_insertionSort (fun a b : QueuedIntent => a.priority.key ≤ b.priority.key)
    (Before H T boundary), hmap]
  intro a ha b hb
  obtain ⟨x, -, rfl⟩ := mem_map.mp ha
  obtain ⟨y, -, rfl⟩ := mem_map.mp hb
  rfl

lemma queue_of_sorted {l : List TradeIntent} (hl : l.Pairwise (Before H T boundary)) :
    (queue H T boundary l).map (·.intent) = l := by
  rw [queue_intents, List.Pairwise.insertionSort_eq hl]

/-- **The queue of an admitted set does not depend on the order of its intents.** -/
theorem queue_perm (h : Admitted H T boundary asset intents) (hperm : intents.Perm intents') :
    (queue H T boundary intents).map (·.intent) = (queue H T boundary intents').map (·.intent) := by
  rw [queue_intents, queue_intents]
  refine List.Perm.eq_of_pairwise ?_ (pairwise_insertionSort (Before H T boundary) _)
    (pairwise_insertionSort (Before H T boundary) _) ?_
  · intro a b ha hb
    exact h.before_antisymm ((mem_insertionSort _).mp ha)
      (hperm.mem_iff.mpr ((mem_insertionSort _).mp hb))
  · exact (perm_insertionSort _ _).trans (hperm.trans (perm_insertionSort _ _).symm)

/-- The indices of a queue point into the set. -/
theorem index_queue {q : QueuedIntent} (hq : q ∈ queue H T boundary intents) :
    intents[q.index]? = some q.intent := by
  rw [queue, mem_insertionSort, indexed, mem_map] at hq
  obtain ⟨x, hx, rfl⟩ := hq
  exact mem_zipIdx_iff_getElem?.mp hx

/-! ### A set of three trades -/

/-- A hash that tells trades apart by their slots only. -/
def TradeHash.plain : TradeHash :=
  { policy := fun _ => 1, intent := fun _ funding => (funding.map fun c => c.1.slotIndex + 1).sum
    order := fun _ _ _ slot => slot + 1, batch := fun _ _ _ _ _ _ => 1 }

def evenMarket : MarketStart :=
  .market { genesis := 1, base := NOID_ASSET, quote := 1, profile := MARKET_PROFILE }
    (permanentPool (10 ^ 6) (10 ^ 6) 0)

def tenthBlock : TradeBoundary := { chain := 1, epochAnchor := 1, parentId := 1, height := 10 }

def plainPolicy (side : LaunchSide) (gross minimum : ℕ) : TradePolicy :=
  { chain := 1, epochAnchor := 1, owner := 1, asset := 1, recipient := 1, side := side, grossInput := gross
    minimumOutput := minimum, feeLimit := 50000, validFrom := 1, validUntil := 20 }

def buyFrom (slot gross minimum : ℕ) : TradeIntent :=
  { policy := plainPolicy .buy gross minimum
    funding := [{ input := { slotIndex := slot, amount := gross + 50000, creationId := 7 }, root := 1
                  opening := none }] }

def sellFrom (slot gross minimum : ℕ) : TradeIntent :=
  { policy := plainPolicy .sell gross minimum
    funding := [{ input := { slotIndex := slot, amount := 50000, creationId := 7 }, root := 1, opening := none },
      { input := { slotIndex := slot + 1, amount := 0, creationId := NATIVE_CREATION_TAG + 1 }, root := 1
        opening := some (.tokenBalance { asset := 1, owner := 1, units := gross, unlockHeight := 0 }) }] }

/-- The second buy asks for more than the first one leaves. -/
def threeTrades : List TradeIntent := [buyFrom 1 100000 80000, buyFrom 2 100000 95000, sellFrom 3 50000 40000]

/-- A fill in the pool, with its reserves behind it. -/
def poolFill (index : ℕ) (authorization : Digest) (side : LaunchSide) (input output base quote : ℕ) : SequencedFill :=
  { sourceIndex := index, authorizationId := authorization
    outcome := { side := side, grossInput := input, spentInput := input, output := output
                 marketFee := input * MARKET_FEE_BPS / 10000, curveSpent := 0, curveOutput := 0
                 after := .market (permanentPool base quote 0) } }

/-- The plan of the three trades, under the indices they were submitted with. -/
def threePlan (first second third : ℕ) : SequencingPlan :=
  { fills := [poolFill first 2 .buy 100000 90661 1100000 909339, poolFill third 9 .sell 50000 57168 1042832 959339]
    unfilled := [second], after := some (.market (permanentPool 1042832 959339 1)) }

lemma execute_threeTrades :
    SequencingPlan.execute NativeHash.plain TradeHash.plain evenMarket tenthBlock threeTrades =
      .ok (threePlan 0 1 2) := by
  decide +kernel

/-! ### Executions -/

namespace SequencingPlan

variable {start : MarketStart} {plan : SequencingPlan}

/-- The final control of an engine, when anything was filled. -/
def Closes (H : NativeHash) (engine : Engine) (fills : List SequencedFill) (after : Option TradeState) : Prop :=
  if fills = [] then after = none else ∃ t, engine.finish H = .ok t ∧ after = some t

/-- **An execution is a greedy run over the queue of an admitted set.** -/
theorem execute_eq_ok : execute H T start boundary intents = .ok plan ↔
    (intents ≠ [] ∧ intents.length ≤ MAX_SEQUENTIAL_TRADES) ∧ ∃ engine initial engine' fs us,
      Engine.new H start = .ok engine ∧ engine.price = .ok initial ∧
      Admitted H T boundary engine.asset intents ∧
      (queueLoop H T initial).Runs engine (queue H T boundary intents) engine' fs us ∧
      plan.fills = fs.map sequenced ∧ plan.unfilled = us.map (·.index) ∧
      Closes H engine' plan.fills plan.after := by
  simp only [execute, ok_rules, Prod.exists, admitAll_eq_ok, not_mem_nil, not_false_eq_true, implies_true, true_and]
  refine and_congr_right fun _ => ?_
  constructor
  · rintro ⟨engine, hnew, initial, hprice, q, ⟨hadm, rfl⟩, engine', fills, unfilled, hrun, h⟩
    obtain ⟨fs, us, hruns, rfl, rfl⟩ := run_eq_ok.mp hrun
    refine ⟨engine, initial, engine', fs, us, hnew, hprice, hadm, hruns, ?_⟩
    split_ifs at h with hnil
    · obtain rfl := pure_eq_ok.mp h
      exact ⟨rfl, rfl, by simp [Closes, hnil]⟩
    · simp only [ok_rules] at h
      obtain ⟨t, ht, rfl⟩ := h
      exact ⟨rfl, rfl, by simp [Closes, hnil, ht]⟩
  · rintro ⟨engine, initial, engine', fs, us, hnew, hprice, hadm, hruns, hfills, hunfilled, hclose⟩
    refine ⟨engine, hnew, initial, hprice, _, ⟨hadm, rfl⟩, engine', _, _, run_eq_ok.mpr ⟨fs, us, hruns, rfl, rfl⟩, ?_⟩
    obtain ⟨fills, unfilled, after⟩ := plan
    subst hfills hunfilled
    unfold Closes at hclose
    split_ifs at hclose ⊢ with hnil
    · subst hclose
      rfl
    · obtain ⟨t, ht, rfl⟩ := hclose
      simp [ht, bind_of_ok]

/-- **Every intent is filled or left unfilled, once.** -/
theorem execute_indices (h : execute H T start boundary intents = .ok plan) :
    (plan.fills.map (·.sourceIndex) ++ plan.unfilled).Perm (range intents.length) := by
  obtain ⟨-, engine, initial, engine', fs, us, -, -, -, hruns, hfills, hunfilled, -⟩ := execute_eq_ok.mp h
  have hindices : (queue H T boundary intents).map (·.index) |>.Perm (range intents.length) := by
    have hmap : (indexed H T boundary 0 intents).map (·.index) = range intents.length := by
      simp [indexed, Function.comp_def, zipIdx_map_snd, range_eq_range']
    rw [← hmap]
    exact (perm_insertionSort _ _).map _
  have hperm := (hruns.perm.map (·.index)).symm.trans hindices
  simpa [hfills, hunfilled, sequenced, Function.comp_def] using hperm

/-- Two plans that fill the same intents in the same way and order, and leave the same unfilled. -/
structure Same (intents intents' : List TradeIntent) (plan plan' : SequencingPlan) : Prop where
  fills : plan.fills.map (fun f => (f.authorizationId, f.outcome)) =
    plan'.fills.map fun f => (f.authorizationId, f.outcome)
  filled : plan.fills.map (intents[·.sourceIndex]?) = plan'.fills.map (intents'[·.sourceIndex]?)
  unfilled : plan.unfilled.map (intents[·]?) = plan'.unfilled.map (intents'[·]?)
  after : plan.after = plan'.after

lemma Same.unfilled_eq_nil {plan' : SequencingPlan} (h : Same intents intents' plan plan')
    (hnil : plan.unfilled = []) : plan'.unfilled = [] := by
  have hmap := h.unfilled
  rw [hnil] at hmap
  simpa using hmap.symm

lemma sequenced_outcomes (fs : List QueueFill) :
    (fs.map sequenced).map (fun f => (f.authorizationId, f.outcome)) =
      (fs.map (Fill.map QueuedIntent.intent)).map (·.outcome) := by
  simp [Function.comp_def, sequenced, Fill.map]

section
variable {initial : Price} {engine engine' : Engine} {us : List QueuedIntent}
  {fs : List QueueFill}

lemma sequenced_items (h : (queueLoop H T initial).Runs engine (queue H T boundary intents) engine' fs us) :
    (fs.map sequenced).map (intents[·.sourceIndex]?) = (fs.map (Fill.map QueuedIntent.intent)).map (some ·.item) := by
  simp only [map_map, map_inj_left, Function.comp_apply, sequenced, Fill.map]
  intro f hf
  exact index_queue (h.item_mem hf)

lemma unfilled_items (h : (queueLoop H T initial).Runs engine (queue H T boundary intents) engine' fs us) :
    (us.map (·.index)).map (intents[·]?) = (us.map QueuedIntent.intent).map some := by
  simp only [map_map, map_inj_left, Function.comp_apply]
  intro x hx
  exact index_queue (h.perm.mem_iff.mpr (mem_append.mpr (.inr hx)))

lemma map_sequenced_eq_nil {fs' : List QueueFill}
    (h : fs.map (Fill.map QueuedIntent.intent) = fs'.map (Fill.map QueuedIntent.intent)) :
    fs.map sequenced = [] ↔ fs'.map sequenced = [] := by
  have hlen := congrArg length h
  simp only [length_map] at hlen
  rw [map_eq_nil_iff, map_eq_nil_iff, ← length_eq_zero_iff, ← length_eq_zero_iff, hlen]

end

lemma execute_of_perm (hperm : intents.Perm intents') (h : execute H T start boundary intents = .ok plan) :
    ∃ plan', execute H T start boundary intents' = .ok plan' ∧ Same intents intents' plan plan' := by
  obtain ⟨⟨hne, hlen⟩, engine, initial, engine', fs, us, hnew, hprice, hadm, hruns, hfills, hunfilled, hclose⟩ :=
    execute_eq_ok.mp h
  obtain ⟨fs', us', hruns', hfs, hus⟩ := hruns.map.of_map (queue_perm hadm hperm)
  refine ⟨⟨fs'.map sequenced, us'.map (·.index), plan.after⟩, execute_eq_ok.mpr ⟨?_, engine, initial, engine',
    fs', us', hnew, hprice, hadm.perm hperm, hruns', rfl, rfl, ?_⟩, ?_, ?_, ?_, rfl⟩
  · rw [← hperm.length_eq]
    exact ⟨fun hnil => hne (perm_nil.mp (hnil ▸ hperm)), hlen⟩
  · simpa only [Closes, hfills, map_sequenced_eq_nil hfs] using hclose
  · rw [hfills, sequenced_outcomes, sequenced_outcomes, hfs]
  · rw [hfills, sequenced_items hruns, sequenced_items hruns', hfs]
  · rw [hunfilled, unfilled_items hruns, unfilled_items hruns', hus]

lemma execute_error_of_perm (hperm : intents.Perm intents')
    (h : ∃ e, execute H T start boundary intents = .error e) :
    ∃ e, execute H T start boundary intents' = .error e := by
  obtain ⟨e, he⟩ := h
  cases h' : execute H T start boundary intents' with
  | error e' => exact ⟨e', rfl⟩
  | ok plan' =>
    obtain ⟨plan, hplan, -⟩ := execute_of_perm hperm.symm h'
    rw [he] at hplan
    cases hplan

/-- **The order of submission has no influence** on the fills, or on whether the execution fails. -/
theorem execute_perm (hperm : intents.Perm intents') : ((∃ e, execute H T start boundary intents = .error e) ↔
        ∃ e, execute H T start boundary intents' = .error e) ∧
      ∀ plan plan', execute H T start boundary intents = .ok plan →
        execute H T start boundary intents' = .ok plan' → Same intents intents' plan plan' := by
  refine ⟨⟨execute_error_of_perm hperm, execute_error_of_perm hperm.symm⟩, ?_⟩
  intro plan plan' h h'
  obtain ⟨plan'', h'', hsame⟩ := execute_of_perm hperm h
  rw [h'] at h''
  cases h''
  exact hsame

/-- The three trades in the opposite order. -/
theorem execute_perm_reversed :
    Same threeTrades threeTrades.reverse (threePlan 0 1 2) (threePlan 2 1 0) :=
  (execute_perm (reverse_perm threeTrades).symm).2 _ _ execute_threeTrades (by decide +kernel)

/-! ### Dropping the declined intents -/

def filled (plan : SequencingPlan) (intents : List TradeIntent) : List TradeIntent :=
  plan.fills.filterMap fun f => intents[f.sourceIndex]?

lemma execute_sublist (h : execute H T start boundary intents = .ok plan) (hne : plan.fills ≠ []) :
    ∃ l plan', l.Perm (plan.filled intents) ∧ execute H T start boundary l = .ok plan' ∧
      plan'.unfilled = [] ∧ plan'.after = plan.after ∧
      plan'.fills.map (fun f => (f.authorizationId, f.outcome)) =
        plan.fills.map (fun f => (f.authorizationId, f.outcome)) ∧
      plan'.fills.map (l[·.sourceIndex]?) = plan.fills.map (intents[·.sourceIndex]?) := by
  obtain ⟨⟨-, hlen⟩, engine, initial, engine', fs, us, hnew, hprice, hadm, hruns, hfills, -, hclose⟩ :=
    execute_eq_ok.mp h
  obtain ⟨l, hsub, hdropped⟩ := hruns.map.drop_declined
  rw [queue_intents] at hsub
  have hsorted : l.Pairwise (Before H T boundary) := (pairwise_insertionSort _ _).sublist hsub
  obtain ⟨fs', us', hruns', hfs, hus⟩ := hdropped.of_map (queue_of_sorted hsorted).symm
  obtain rfl := map_eq_nil_iff.mp hus.symm
  have hitems : l.Perm (plan.filled intents) := by
    have hfilled : plan.filled intents = (fs.map (Fill.map QueuedIntent.intent)).map (·.item) := by
      have hmap := congrArg (filterMap id) (sequenced_items hruns)
      simpa [filled, hfills, filterMap_map, Function.comp_def, filterMap_eq_map] using hmap
    rw [hfilled]
    simpa using hdropped.perm
  have hadm' : Admitted H T boundary engine.asset l :=
    (hadm.perm (perm_insertionSort (Before H T boundary) intents).symm).sublist hsub
  have hlen' : l.length ≤ MAX_SEQUENTIAL_TRADES := by
    have := hsub.length_le
    rw [length_insertionSort] at this
    omega
  refine ⟨l, ⟨fs'.map sequenced, [], plan.after⟩, hitems, execute_eq_ok.mpr ⟨⟨?_, hlen'⟩, engine, initial,
    engine', fs', [], hnew, hprice, hadm', hruns', rfl, rfl, ?_⟩, rfl, rfl, ?_, ?_⟩
  · rintro rfl
    have hnil := hdropped.perm.nil_eq
    simp only [append_nil, nil_eq, map_eq_nil_iff] at hnil
    exact hne (by rw [hfills, hnil, map_nil])
  · simpa only [Closes, hfills, map_sequenced_eq_nil hfs] using hclose
  · rw [hfills, sequenced_outcomes, sequenced_outcomes, hfs]
  · rw [hfills, sequenced_items hruns, sequenced_items hruns', hfs]

/-- **Removing the declined intents changes nothing**: the filled ones, in any order, execute alike without a decline,
and their batch is accepted. -/
theorem execute_filled (h : execute H T start boundary intents = .ok plan) (hne : plan.fills ≠ [])
    {l : List TradeIntent} (hl : l.Perm (plan.filled intents)) :
    ∃ plan', execute H T start boundary l = .ok plan' ∧ plan'.unfilled = [] ∧
      plan'.fills.map (fun f => (f.authorizationId, f.outcome)) =
        plan.fills.map (fun f => (f.authorizationId, f.outcome)) ∧
      plan'.fills.map (l[·.sourceIndex]?) = plan.fills.map (intents[·.sourceIndex]?) ∧
      plan'.after = plan.after ∧
      ∀ parent b, parent.market = start → TradeBatch.new H T parent l = .ok b →
        ∃ accepted, b.checked H T boundary = .ok accepted ∧ Same l b.policies plan' accepted := by
  obtain ⟨l0, plan0, hperm, hplan0, hunfilled, hafter, hfills, hfilled⟩ := execute_sublist h hne
  obtain ⟨plan', hplan', hsame⟩ := execute_of_perm (hperm.trans hl.symm) hplan0
  have hunfilled' := hsame.unfilled_eq_nil hunfilled
  refine ⟨plan', hplan', hunfilled', hsame.fills.symm.trans hfills, hsame.filled.symm.trans hfilled,
    hsame.after.symm.trans hafter, ?_⟩
  rintro parent b rfl hb
  obtain ⟨rfl, hpolicies, hstructure⟩ := TradeBatch.new_eq_ok hb
  obtain ⟨accepted, haccepted, hsame'⟩ := execute_of_perm hpolicies.symm hplan'
  refine ⟨accepted, ?_, hsame'⟩
  have hnone := hsame'.unfilled_eq_nil hunfilled'
  have hlen := (execute_indices haccepted).length_eq
  simp only [hnone, append_nil, length_map, length_range] at hlen
  simp [TradeBatch.checked, hstructure, haccepted, hnone, hlen, bind_of_ok, require, Except.mapError]

/-- The buy and the sell without the declined trade. -/
theorem execute_filled_two :
    ∃ plan, execute NativeHash.plain TradeHash.plain evenMarket tenthBlock
        [buyFrom 1 100000 80000, sellFrom 3 50000 40000] = .ok plan ∧
      plan.unfilled = [] ∧ plan.after = (threePlan 0 1 2).after := by
  obtain ⟨plan, hplan, hunfilled, -, -, hafter, -⟩ :=
    execute_filled execute_threeTrades (by decide) (l := [buyFrom 1 100000 80000, sellFrom 3 50000 40000])
      (by decide)
  exact ⟨plan, hplan, hunfilled, hafter⟩

end SequencingPlan

/-! ### Fairness -/

def MarketStart.control : MarketStart → TradeState
  | .curve _ s => .curve s
  | .market _ p => .market p

/-- The price of a control of a market; a pool has no curve. -/
def MarketStart.priceAt : MarketStart → TradeState → Except SequencingError Price
  | .curve d _, .curve s => do
    let price ← (d.marginalPrice (d.initialSupply - s.inventoryUnits)).mapError
      fun e => SequencingError.launch (.launch e)
    return ⟨price.numerator, price.denominator⟩
  | .curve _ _, .market p => .ok (Engine.poolPrice p)
  | .market _ _, .market p => .ok (Engine.poolPrice p)
  | .market _ _, .curve _ => .error .asset

/-- A price as a number. -/
def Price.value (p : Price) : ℚ := p.numerator / p.denominator

lemma Price.atMost_iff {p q : Price} (hp : 0 < p.denominator) (hq : 0 < q.denominator) :
    p.atMost q = true ↔ p.value ≤ q.value := by
  have hp' : (0 : ℚ) < p.denominator := by exact_mod_cast hp
  have hq' : (0 : ℚ) < q.denominator := by exact_mod_cast hq
  rw [value, value, div_le_div_iff₀ hp' hq', atMost, decide_eq_true_iff]
  exact_mod_cast Iff.rfl

/-- A pool control has tokens to price. -/
def TradeState.Funded (t : TradeState) : Prop := ∀ p, t = .market p → 0 < p.quoteReserve

lemma PoolState.quote_pos {p : PoolState} {d : MarketDefinition} {u : Unit}
    (h : p.checkDefinition H d = .ok u) : 0 < p.quoteReserve := by
  simp only [checkDefinition, bind_eq_ok, validate_eq_ok] at h
  obtain ⟨-, ⟨-, -, ⟨hne, -⟩, -⟩, -⟩ := h
  exact Nat.pos_of_ne_zero hne

lemma quoteExactInput_quote_pos {d : MarketDefinition} {before : PoolState} {inputAsset : AssetId}
    {gross minimum : ℕ} {q : SwapQuote} (h : quoteExactInput H d before inputAsset gross minimum = .ok q) :
    0 < before.quoteReserve := by
  rw [quoteExactInput, bind_eq_ok] at h
  obtain ⟨u, hcheck, -⟩ := h
  exact PoolState.quote_pos hcheck

lemma MarketStart.priceAt_pos {start : MarketStart} {t : TradeState} {p : Price} (ht : t.Funded)
    (h : start.priceAt t = .ok p) : 0 < p.denominator := by
  cases start <;> cases t
  case curve.curve d _ s =>
    simp only [priceAt, LaunchDefinition.marginalPrice, LaunchDefinition.averagePrice, ok_rules] at h
    obtain ⟨price, ⟨u, hd, -, rfl⟩, rfl⟩ := h
    exact Nat.mul_pos (by norm_num) (definition_supply hd).pos
  case market.curve => cases h
  all_goals
    obtain rfl := Except.ok.inj h
    exact ht _ rfl

namespace Engine

variable {start : MarketStart} {engine engine' : Engine}

def control : Engine → TradeState
  | .curve _ g => g.current
  | .market _ g => .market g.current

lemma new_control (h : new H start = .ok engine) : engine.control = start.control := by
  cases start with
  | curve d s =>
    simp only [new, SequentialLaunch.new, ok_rules] at h
    obtain ⟨g, ⟨u, -, -, rfl⟩, rfl⟩ := h
    rfl
  | market d p =>
    simp only [new, SequentialMarket.new, ok_rules] at h
    obtain ⟨g, ⟨u, -, -, rfl⟩, rfl⟩ := h
    rfl

lemma new_funded (h : new H start = .ok engine) : engine.control.Funded := by
  rw [new_control h]
  cases start with
  | curve d s => exact fun p hp => by cases hp
  | market d p =>
    simp only [new, SequentialMarket.new, ok_rules] at h
    obtain ⟨g, ⟨u, hcheck, -, rfl⟩, rfl⟩ := h
    rintro p' ⟨⟩
    exact PoolState.quote_pos hcheck

lemma apply_control {side : LaunchSide} {gross minimum : ℕ} {outcome : TradeOutcome}
    (h : engine.apply H side gross minimum = .ok (outcome, engine')) :
    engine'.control = outcome.after ∧ outcome.side = side ∧ engine.control.Funded := by
  cases engine with
  | curve d g =>
    simp only [apply, SequentialLaunch.apply, ok_rules, Prod.exists, Prod.mk.injEq] at h
    obtain ⟨q, g', ⟨-, q', hquote, rfl, rfl⟩, rfl, rfl⟩ := h
    refine ⟨rfl, rfl, fun p hp => ?_⟩
    change g.current = .market p at hp
    simp only [hp, TradeState.quote, marketQuote, ok_rules] at hquote
    obtain ⟨swap, hswap, -⟩ := hquote
    exact quoteExactInput_quote_pos hswap
  | market d g =>
    simp only [apply, SequentialMarket.apply, ok_rules, Prod.exists, Prod.mk.injEq] at h
    obtain ⟨q, g', ⟨-, q', hquote, rfl, rfl⟩, rfl, rfl⟩ := h
    refine ⟨rfl, rfl, ?_⟩
    rintro p ⟨⟩
    exact quoteExactInput_quote_pos hquote

lemma price_eq (h : engine.Fits start) : engine.price = start.priceAt engine.control := by
  cases engine with
  | curve d g =>
    obtain ⟨-, s, rfl⟩ := h
    cases hg : g.current <;> simp [price, control, MarketStart.priceAt, hg]
  | market d g =>
    obtain ⟨-, p, rfl⟩ := h
    rfl

end Engine

lemma LaunchSide.eq_of_ne {a b c : LaunchSide} (hac : a ≠ c) (hbc : b ≠ c) : a = b := by
  cases a <;> cases b <;> cases c <;> simp_all

lemma preferredSide_eq_buy {initial current : Price} (hinitial : 0 < initial.denominator)
    (hcurrent : 0 < current.denominator) :
    preferredSide initial current = .buy ↔ current.value ≤ initial.value := by
  rw [← Price.atMost_iff hcurrent hinitial, preferredSide]
  split_ifs with h <;> simp [h]

namespace SequencingPlan

variable {start : MarketStart} {plan : SequencingPlan}

/-- The control just before the fill at position `k`. -/
def before (plan : SequencingPlan) (start : MarketStart) (k : ℕ) : Option TradeState :=
  (start.control :: plan.fills.map (·.outcome.after))[k]?

/-- All fills after position `k` are on one side. -/
def OneSidedAfter (plan : SequencingPlan) (k : ℕ) (side : LaunchSide) : Prop :=
  ∀ f ∈ plan.fills.drop (k + 1), f.outcome.side = side

/-- A fill that is not on the preferred side has only fills of its own side after it. -/
theorem runs_tail {initial : Price} {engine engine' : Engine} {q us : List QueuedIntent}
    {fs : List QueueFill}
    (h : (queueLoop H T initial).Runs engine q engine' fs us) {k : ℕ}
    {x : QueueFill} (hx : fs[k]? = some x) :
    ∃ p, x.before.price = .ok p ∧ (x.item.intent.policy.side ≠ preferredSide initial p →
      ∀ y ∈ fs.drop (k + 1), y.item.intent.policy.side ≠ preferredSide initial p) := by
  obtain ⟨hk, rfl⟩ := List.getElem?_eq_some_iff.mp hx
  have hsplit : fs = fs.take k ++ fs[k] :: fs.drop (k + 1) := by
    rw [cons_getElem_drop_succ, take_append_drop]
  obtain ⟨q, hq, htail⟩ := h.not_preferred hsplit
  obtain ⟨r, hr, rfl⟩ := Loop.prefer_comap hq
  obtain ⟨p, hp, rfl⟩ := tradeLoop_prefer hr
  refine ⟨p, hp, ?_⟩
  simpa using htail

/-- **Fairness**: a buy above the initial price is followed by buys only, and a sell at or below it by sells only. -/
theorem execute_fair (h : execute H T start boundary intents = .ok plan) :
    ∃ p0, start.priceAt start.control = .ok p0 ∧ ∀ k f, plan.fills[k]? = some f →
      ∃ t p, plan.before start k = some t ∧ start.priceAt t = .ok p ∧
        (f.outcome.side = .buy → p0.value < p.value → plan.OneSidedAfter k .buy) ∧
        (f.outcome.side = .sell → p.value ≤ p0.value → plan.OneSidedAfter k .sell) ∧
        ((f.outcome.side = .buy ∧ p.value ≤ p0.value ∨ f.outcome.side = .sell ∧ p0.value ≤ p.value) ∨
          plan.OneSidedAfter k f.outcome.side) := by
  obtain ⟨-, engine, p0, engine', fs, us, hnew, hprice, -, hruns, hfills, -, -⟩ := execute_eq_ok.mp h
  have hfits := (Engine.new_eq_ok hnew).1
  have hattempt : ∀ s (a : QueuedIntent) (o : Digest × TradeOutcome) s',
      (queueLoop H T p0).attempt s a = .ok (some (o, s')) →
      s.apply H a.intent.policy.side a.intent.policy.grossInput a.intent.policy.minimumOutput = .ok (o.2, s') :=
    fun s a o s' h => (attemptTrade_eq_some h).1
  have hall := (hruns.always hfits fun s a o s' hs h => Engine.apply_fits hs (hattempt s a o s' h)).1
  have htrace := hruns.trace Engine.control (fun o => o.2.after)
    fun s a o s' h => (Engine.apply_control (hattempt s a o s' h)).1
  have hsides : ∀ f ∈ fs, f.outcome.2.side = f.item.intent.policy.side ∧ f.before.control.Funded := by
    intro f hf
    obtain ⟨s', hs'⟩ := hruns.attempt_of_mem hf
    exact (Engine.apply_control (hattempt _ _ _ _ hs')).2
  rw [Engine.price_eq hfits, Engine.new_control hnew] at hprice
  have hpos0 := MarketStart.priceAt_pos (Engine.new_control hnew ▸ Engine.new_funded hnew) hprice
  refine ⟨p0, hprice, ?_⟩
  intro k f hk
  rw [hfills, getElem?_map, Option.map_eq_some_iff] at hk
  obtain ⟨x, hx, rfl⟩ := hk
  have hmem := mem_of_getElem? hx
  obtain ⟨p, hp, htail⟩ := runs_tail hruns hx
  rw [Engine.price_eq (hall x hmem)] at hp
  have hpos := MarketStart.priceAt_pos (hsides x hmem).2 hp
  have hbefore : plan.before start k = some x.before.control := by
    rw [before, hfills, ← Engine.new_control hnew, map_map]
    change (engine.control :: fs.map fun f => f.outcome.2.after)[k]? = _
    rw [← htrace, List.getElem?_append_left (by
      rw [length_map]
      exact (List.getElem?_eq_some_iff.mp hx).1), List.getElem?_map, hx]
    rfl
  have hone : x.outcome.2.side ≠ preferredSide p0 p → plan.OneSidedAfter k x.outcome.2.side := by
    intro hside g hg
    rw [hfills, ← map_drop, mem_map] at hg
    obtain ⟨y, hy, rfl⟩ := hg
    have hys := htail ((hsides x hmem).1 ▸ hside) y hy
    rw [← (hsides y (mem_of_mem_drop hy)).1] at hys
    exact LaunchSide.eq_of_ne hys hside
  refine ⟨x.before.control, p, hbefore, hp, ?_⟩
  have hbuy := preferredSide_eq_buy hpos0 hpos
  rw [sequenced_outcome]
  cases hside : x.outcome.2.side with
  | buy =>
    rw [hside] at hone
    have habove : p0.value < p.value → plan.OneSidedAfter k .buy :=
      fun hlt => hone fun heq => (not_le.mpr hlt) (hbuy.mp heq.symm)
    refine ⟨fun _ => habove, by simp, ?_⟩
    rcases le_or_gt p.value p0.value with hle | hlt
    · exact .inl (.inl ⟨rfl, hle⟩)
    · exact .inr (habove hlt)
  | sell =>
    rw [hside] at hone
    have hbelow : p.value ≤ p0.value → plan.OneSidedAfter k .sell :=
      fun hle => hone fun heq => by simp [hbuy.mpr hle] at heq
    refine ⟨by simp, fun _ => hbelow, ?_⟩
    rcases le_or_gt p.value p0.value with hle | hlt
    · exact .inr (hbelow hle)
    · exact .inl (.inr ⟨rfl, hlt.le⟩)

/-- The three trades and two more buys, for which no sell is left. -/
def lateBuys : List TradeIntent := threeTrades ++ [buyFrom 5 50000 1, buyFrom 6 50000 1]

def latePlan : SequencingPlan :=
  { fills := (threePlan 0 1 2).fills ++
      [poolFill 3 6 .buy 50000 43766 1092832 915573, poolFill 4 7 .buy 50000 39942 1142832 875631]
    unfilled := [1], after := some (.market (permanentPool 1142832 875631 1)) }

/-- The third fill buys above the initial price, and only a buy follows it. -/
theorem execute_fair_late : ∃ p0 p, evenMarket.priceAt evenMarket.control = .ok p0 ∧
    evenMarket.priceAt (.market (permanentPool 1042832 959339 0)) = .ok p ∧ p0.value < p.value ∧
      latePlan.OneSidedAfter 2 .buy := by
  have hrun : execute NativeHash.plain TradeHash.plain evenMarket tenthBlock lateBuys = .ok latePlan := by
    decide +kernel
  obtain ⟨p0, hp0, hfills⟩ := execute_fair hrun
  obtain ⟨t, p, ht, hp, hbuy, -⟩ := hfills 2 _ rfl
  obtain rfl : TradeState.market (permanentPool 1042832 959339 0) = t := by
    simpa [before, latePlan, threePlan, poolFill] using ht
  have habove : p0.value < p.value := by
    cases hp0
    cases hp
    norm_num [Price.value, Engine.poolPrice, permanentPool]
  exact ⟨p0, p, hp0, hp, habove, hbuy rfl habove⟩

end SequencingPlan

end

end Noid.Tx
