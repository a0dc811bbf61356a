import Noid.Tx.LaunchStep

/-! # Rounding the fills of a step

The partial group is filled by its fraction rounded down, and the rounded total is shared out in the order of the requests
by rounding running totals.  So the curve moves by less than one unit away from the exact move. -/

namespace Noid.Tx

open Noid.Lib Noid.Lib.Crossing

/-- The effect of a filled quantity on the units sold. -/
def signed (o : Order) (q : ℕ) : ℤ := if o.side = .buy then q else -q

/-- The effect of all the filled quantities. -/
def net (l : List Order) (qs : List ℕ) : ℤ := ((l.zip qs).map fun x => signed x.1 x.2).sum

@[simp] lemma net_nil : net [] [] = 0 := rfl

@[simp] lemma net_cons (o : Order) (l : List Order) (q : ℕ) (qs : List ℕ) :
    net (o :: l) (q :: qs) = signed o q + net l qs := rfl

/-- The sign with which a partial fill moves the curve, as an integer. -/
def sideInt : Option LaunchSide → ℤ
  | some .buy => 1
  | some .sell => -1
  | none => 0

def activeOf (mask : Finset ℕ) (l : List (Order × ℕ)) : List Order :=
  (l.filter fun x => decide (x.2 ∈ mask)).map (·.1)

/-- What a step grants an order: at most its quantity, and nothing beyond its limit. -/
def Grants (s : LaunchStep) (o : Order) (q : ℕ) : Prop :=
  q ≤ o.quantity ∧ (q ≠ 0 → classify o s.price ≠ .outside)

/-- A sale that is filled pays something. -/
def Pays (s : LaunchStep) (o : Order) (q : ℕ) : Prop :=
  o.side = .sell → q ≠ 0 → q * s.price.numerator / s.price.denominator ≠ 0

section Loop

variable {s : LaunchStep} {pt mt : ℕ}

lemma mul_price_le {n d q : ℕ} (hd : 0 < d) (h : n * 100 ≤ d) : q * n / d ≤ q := by
  have hle : n ≤ d := by omega
  calc q * n / d ≤ q * d / d := Nat.div_le_div_right (Nat.mul_le_mul_left q hle)
    _ = q := Nat.mul_div_cancel q hd

variable {o : Order} {x : Order × ℕ} {l : List (Order × ℕ)}

lemma isDust_ok (hd : 0 < s.price.denominator)
    (hcheap : s.price.numerator * 100 ≤ s.price.denominator) {q : ℕ} (hq : q < U64) :
    ∃ b, isDust o s.price q = .ok b ∧ (b = false → q ≠ 0 ∧ Pays s o q) := by
  unfold isDust
  by_cases hz : q = 0
  · exact ⟨true, if_pos hz, by simp⟩
  rw [if_neg hz]
  by_cases hs : o.side = .sell
  · have hlt : q * s.price.numerator / s.price.denominator < U64 :=
      lt_of_le_of_lt (mul_price_le hd hcheap) hq
    refine ⟨decide (q * s.price.numerator / s.price.denominator = 0), ?_, ?_⟩
    · rw [if_pos hs, LaunchPrice.proceeds, require_bind hd.ne', checked_bind hlt]
      rfl
    · intro hb
      exact ⟨hz, fun _ _ => of_decide_eq_false hb⟩
  · exact ⟨false, if_neg hs, fun _ => ⟨hz, fun h => absurd h hs⟩⟩

lemma shareIsDust_ok (hd : 0 < s.price.denominator)
    (hcheap : s.price.numerator * 100 ≤ s.price.denominator) {q : ℕ} (hq : q < U64)
    (hnone : s.fractionNumerator = 0 → q = 0) :
    ∃ b, shareIsDust s o q = .ok b ∧ (b = false → Pays s o q) := by
  unfold shareIsDust
  by_cases hnum : s.fractionNumerator = 0
  · exact ⟨false, by simp [hnum, pure, Except.pure], fun _ _ hne => absurd (hnone hnum) hne⟩
  · obtain ⟨b, hb, hdust⟩ := isDust_ok (s := s) (o := o) (q := q) hd hcheap hq
    exact ⟨b, by rw [if_pos hnum, hb], fun h => (hdust h).2⟩

lemma outside_not_marginal (h : classify o s.price = .outside) :
    isPartial o s = false := by
  simp [isPartial, h]

/-- The shares of the partial group: increments of a rounded running total. -/
theorem share_le {seen q : ℕ} (hpt : pt ≤ mt) (hseen : seen + q ≤ mt) (hq : 0 < q) :
    pt * seen / mt ≤ pt * (seen + q) / mt ∧ pt * (seen + q) / mt ≤ pt * seen / mt + q ∧
      pt * (seen + q) / mt ≤ pt := by
  have hmt : 0 < mt := by omega
  refine ⟨Nat.div_le_div_right (Nat.mul_le_mul_left pt (Nat.le_add_right seen q)), ?_, ?_⟩
  · calc pt * (seen + q) / mt ≤ (pt * seen + mt * q) / mt := by
          refine Nat.div_le_div_right ?_
          rw [Nat.mul_add]
          exact Nat.add_le_add_left (Nat.mul_le_mul_right q hpt) _
      _ = pt * seen / mt + q := Nat.add_mul_div_left _ _ hmt
  · exact Nat.div_le_of_le_mul (by rw [Nat.mul_comm mt]; exact Nat.mul_le_mul_left pt hseen)

/-- The result of the filling loop on a list of orders, from a state of its counters. -/
structure LoopSpec (s : LaunchStep) (pt mt allocated : ℕ) (l : List (Order × ℕ)) (a : Allocation) : Prop where
  seen_eq : a.seen = mt
  allocated_eq : a.allocated = pt * mt / mt
  grants : List.Forall₂ (fun x q => Grants s x.1 q) l a.quantities
  pays : List.Forall₂ (fun x q => x.2 ∉ a.dust → Pays s x.1 q) l a.quantities
  dust_subset : a.dust ⊆ s.activeMask
  net_eq : net (l.map (·.1)) a.quantities =
    (fillTotal (activeOf s.activeMask l) s .buy : ℤ) - fillTotal (activeOf s.activeMask l) s .sell +
      sideInt s.partialSide * ((a.allocated : ℤ) - allocated)

lemma activeOf_cons_inactive (h : x.2 ∉ s.activeMask) :
    activeOf s.activeMask (x :: l) = activeOf s.activeMask l := by
  simp [activeOf, h]

lemma activeOf_cons_active (h : x.2 ∈ s.activeMask) :
    activeOf s.activeMask (x :: l) = x.1 :: activeOf s.activeMask l := by
  simp [activeOf, h]

lemma totals_cons_skip (h : x.2 ∉ s.activeMask ∨ classify x.1 s.price = .outside) (side : LaunchSide) :
    fillTotal (activeOf s.activeMask (x :: l)) s side = fillTotal (activeOf s.activeMask l) s side ∧
      partialTotal (activeOf s.activeMask (x :: l)) s = partialTotal (activeOf s.activeMask l) s := by
  by_cases hm : x.2 ∈ s.activeMask
  · have hout := h.resolve_left (not_not.mpr hm)
    rw [activeOf_cons_active hm, fillTotal, partialTotal, total_cons, total_cons, outside_not_marginal hout, hout]
    simp [fillTotal, partialTotal]
  · rw [activeOf_cons_inactive hm]
    exact ⟨rfl, rfl⟩

/-- An order of the partial group counts there only. -/
theorem totals_cons_marginal (hm : x.2 ∈ s.activeMask) (h : isPartial x.1 s = true) (side : LaunchSide) :
    fillTotal (activeOf s.activeMask (x :: l)) s side = fillTotal (activeOf s.activeMask l) s side ∧
      partialTotal (activeOf s.activeMask (x :: l)) s = x.1.quantity + partialTotal (activeOf s.activeMask l) s := by
  rw [activeOf_cons_active hm, fillTotal, partialTotal, total_cons, total_cons, h]
  simp [fillTotal, partialTotal]

lemma totals_cons_full (hm : x.2 ∈ s.activeMask)
    (hc : classify x.1 s.price ≠ .outside) (h : isPartial x.1 s = false) (side : LaunchSide) :
    fillTotal (activeOf s.activeMask (x :: l)) s side =
        (if x.1.side = side then x.1.quantity else 0) + fillTotal (activeOf s.activeMask l) s side ∧
      partialTotal (activeOf s.activeMask (x :: l)) s = partialTotal (activeOf s.activeMask l) s := by
  rw [activeOf_cons_active hm, fillTotal, partialTotal, total_cons, total_cons, h]
  simp [fillTotal, partialTotal, hc]

lemma signed_of_marginal (h : isPartial o s = true) (q : ℕ) :
    signed o q = sideInt s.partialSide * q := by
  have hside : some o.side = s.partialSide := by
    simp only [isPartial, Bool.and_eq_true, decide_eq_true_eq] at h
    exact h.1
  rw [← hside]
  unfold signed
  cases o.side <;> simp [sideInt]

lemma forall₂_dust {α : Type} {P : α × ℕ → ℕ → Prop} {x : α × ℕ} {l : List (α × ℕ)} {e : ℕ} {es : List ℕ}
    {dust : Finset ℕ} {p : Prop} [Decidable p] (h : List.Forall₂ (fun x e => x.2 ∉ dust → P x e) l es)
    (hx : ¬p → P x e) :
    List.Forall₂ (fun y e => y.2 ∉ (if p then insert x.2 dust else dust) → P y e) (x :: l) (e :: es) := by
  by_cases hp : p
  · simp only [if_pos hp, Finset.mem_insert, not_or]
    exact .cons (fun hnot => absurd rfl hnot.1) (h.imp fun _ _ hy hnot => hy hnot.2)
  · simp only [if_neg hp]
    exact .cons (fun _ => hx hp) h

lemma insert_dust_subset {mask dust : Finset ℕ} {p : Prop} [Decidable p] {i : ℕ} (hi : p → i ∈ mask) (h : dust ⊆ mask) :
    (if p then insert i dust else dust) ⊆ mask := by
  split_ifs with hp
  · exact Finset.insert_subset (hi hp) h
  · exact h

/-- One order more: what it is granted is added, and it is dust where it pays nothing. -/
theorem LoopSpec.cons {a : Allocation} {q allocated allocated' : ℕ} {b : Bool} (h : LoopSpec s pt mt allocated' l a)
    (hb : b = true → x.2 ∈ s.activeMask) (hq : Grants s x.1 q) (hpays : b = false → Pays s x.1 q)
    (hnet : signed x.1 q + fillTotal (activeOf s.activeMask l) s .buy - fillTotal (activeOf s.activeMask l) s .sell -
        sideInt s.partialSide * allocated' =
      fillTotal (activeOf s.activeMask (x :: l)) s .buy - fillTotal (activeOf s.activeMask (x :: l)) s .sell -
        sideInt s.partialSide * allocated) :
    LoopSpec s pt mt allocated (x :: l)
      { a with quantities := q :: a.quantities, dust := if b then insert x.2 a.dust else a.dust } :=
  { seen_eq := h.seen_eq
    allocated_eq := h.allocated_eq
    grants := .cons hq h.grants
    pays := forall₂_dust (P := fun x => Pays s x.1) h.pays fun hp => hpays (by simpa using hp)
    dust_subset := insert_dust_subset hb h.dust_subset
    net_eq := by
      rw [List.map_cons, net_cons, h.net_eq]
      linarith }

variable (hd : 0 < s.price.denominator) (hcheap : s.price.numerator * 100 ≤ s.price.denominator)
  (hpt : pt ≤ mt) (hmt : mt < U64) (hzero : s.fractionNumerator = 0 → pt = 0)
include hd hcheap hpt hmt hzero

/-- The filling loop runs to its end. -/
theorem allocateLoop_ok :
    ∀ (l : List (Order × ℕ)) (seen allocated : ℕ), (∀ x ∈ l, 0 < x.1.quantity ∧ x.1.quantity < U64) →
      seen + partialTotal (activeOf s.activeMask l) s = mt → allocated = pt * seen / mt →
      ∃ a, allocateLoop s pt mt seen allocated l = .ok a ∧ LoopSpec s pt mt allocated l a
  | [], seen, allocated, _, hseen, halloc => by
    have hmt' : seen = mt := by simpa [activeOf, partialTotal, total] using hseen
    refine ⟨_, rfl, hmt', by rw [halloc, hmt'], .nil, .nil, Finset.empty_subset _, ?_⟩
    simp [activeOf, fillTotal, total]
  | (o, i) :: l, seen, allocated, hl, hseen, halloc => by
    obtain ⟨⟨hqpos, hqlt⟩, hrest⟩ := List.forall_mem_cons.mp hl
    unfold allocateLoop
    by_cases hskip : i ∉ s.activeMask ∨ classify o s.price = .outside
    · -- inactive or beyond its limit
      have htot := totals_cons_skip (x := (o, i)) (l := l) hskip
      rw [(htot .buy).2] at hseen
      obtain ⟨a, ha, spec⟩ := allocateLoop_ok l seen allocated hrest hseen halloc
      rw [if_pos hskip, bind_of_ok ha]
      refine ⟨_, rfl, spec.cons (b := false) (fun h => by cases h) ⟨Nat.zero_le _, fun h => absurd rfl h⟩
        (fun _ _ h => absurd rfl h) ?_⟩
      rw [(htot .buy).1, (htot .sell).1]
      simp [signed]
    rw [if_neg hskip]
    push Not at hskip
    obtain ⟨hm, hin⟩ := hskip
    by_cases hpart : isPartial o s = true
    · -- a share of the partial group
      have htot := totals_cons_marginal (x := (o, i)) (l := l) hm hpart
      rw [(htot .buy).2] at hseen
      simp only at hseen
      obtain ⟨hge, hle, hcum⟩ := @share_le _ _ seen o.quantity hpt (by omega) (by omega)
      rw [← halloc] at hge hle
      set q := pt * (seen + o.quantity) / mt - allocated with hq
      have hqle : q ≤ o.quantity := by omega
      have hnone : s.fractionNumerator = 0 → q = 0 := by
        intro hnum
        rw [hq, hzero hnum]
        simp
      obtain ⟨b, hb, hdust⟩ := shareIsDust_ok (o := o) hd hcheap (hqle.trans_lt hqlt) hnone
      obtain ⟨a, ha, spec⟩ := allocateLoop_ok l (seen + o.quantity)
        (pt * (seen + o.quantity) / mt) hrest (by simpa [Nat.add_assoc] using hseen) rfl
      rw [if_pos hpart, checked_bind (by omega), checked_bind (by omega),
        bind_of_ok (checkedSub_eq_ok.mpr ⟨hge, rfl⟩), require_bind hqle, bind_of_ok hb, bind_of_ok ha]
      refine ⟨_, rfl, spec.cons (fun _ => hm) ⟨hqle, fun _ => hin⟩ hdust ?_⟩
      rw [(htot .buy).1, (htot .sell).1, signed_of_marginal hpart]
      push_cast [hge]
      ring
    · -- filled in full
      have hpart : isPartial o s = false := by simpa using hpart
      have htot := totals_cons_full (x := (o, i)) (l := l) hm hin hpart
      rw [(htot .buy).2] at hseen
      obtain ⟨b, hb, hdust⟩ := isDust_ok (s := s) (o := o) (q := o.quantity) hd hcheap hqlt
      obtain ⟨a, ha, spec⟩ := allocateLoop_ok l seen allocated hrest hseen halloc
      rw [hpart, if_neg (by simp), bind_of_ok hb, bind_of_ok ha]
      refine ⟨_, rfl, spec.cons (fun _ => hm) ⟨le_rfl, fun _ => hin⟩ (fun h => (hdust h).2) ?_⟩
      rw [(htot .buy).1, (htot .sell).1]
      unfold signed
      cases o.side <;> simp
      ring

end Loop

/-! ### The rounded step -/

/-- What rounding a step at a balanced price gives. -/
structure AllocateSpec (c : StepContext) (orders : List Order) (s : LaunchStep) (a : Allocation) :
    Prop where
  grants : List.Forall₂ (Grants s) orders a.quantities
  pays : a.dust = ∅ → List.Forall₂ (Pays s) orders a.quantities
  dust_subset : a.dust ⊆ c.mask
  move_lt_net : c.move s.price.val - 1 < net orders a.quantities
  net_lt_move : (net orders a.quantities : ℚ) < c.move s.price.val + 1
  neg_sold_le : -(c.sold : ℤ) ≤ net orders a.quantities
  le_remaining : net orders a.quantities ≤ c.remaining

lemma sideSign_eq (side : Option LaunchSide) : sideSign side = sideInt side := by
  rcases side with _ | _ | _ <;> simp [sideSign, sideInt]

lemma actives_eq (orders : List Order) (mask : Finset ℕ) :
    actives orders mask = activeOf mask orders.zipIdx := rfl

/-- The rounded fill of the partial group. -/
theorem partialUnits_ok {c : StepContext} {s : LaunchStep} (hs : StepSpec c s) {mt : ℕ}
    (hmt : mt < U64) (hnone : s.partialSide = none → mt = 0) :
    ∃ pt, partialUnits s mt = .ok pt ∧ pt = s.fractionNumerator * mt / s.fractionDenominator := by
  refine ⟨_, ?_, rfl⟩
  unfold partialUnits
  by_cases hside : s.partialSide = none
  · rw [if_neg (not_not.mpr hside), hnone hside]
    simp [pure, Except.pure]
  · rw [if_pos hside, floorRatio_eq hs.fraction_pos hs.fraction_le hmt]
    rfl

lemma floor_bounds {a b d : ℕ} (hd : 0 < d) :
    ((a * b / d : ℕ) : ℚ) ≤ (a : ℚ) / d * b ∧ (a : ℚ) / d * b < ((a * b / d : ℕ) : ℚ) + 1 := by
  have hd' : (0 : ℚ) < d := by exact_mod_cast hd
  have h1 : a * b / d * d ≤ a * b := Nat.div_mul_le_self _ _
  have h2 : a * b < (a * b / d + 1) * d := by
    rw [Nat.add_mul, Nat.one_mul]
    exact Nat.lt_div_mul_add hd
  have h1' : ((a * b / d : ℕ) : ℚ) * d ≤ a * b := by exact_mod_cast h1
  have h2' : (a : ℚ) * b < (((a * b / d : ℕ) : ℚ) + 1) * d := by exact_mod_cast h2
  rw [div_mul_eq_mul_div, le_div_iff₀ hd', div_lt_iff₀ hd']
  exact ⟨h1', h2'⟩

lemma StepSpec.cheap_nat {c : StepContext} {s : LaunchStep} (hs : StepSpec c s) :
    s.price.numerator * 100 ≤ s.price.denominator := by
  have hd : (0 : ℚ) < s.price.denominator := by exact_mod_cast hs.denominator_pos
  have := hs.cheap
  rw [LaunchPrice.val, div_le_div_iff₀ hd (by norm_num)] at this
  exact_mod_cast (by linarith : (s.price.numerator : ℚ) * 100 ≤ s.price.denominator)

/-- **Rounding a step succeeds** and stays within a unit of the exact move. -/
theorem allocate_ok {c : StepContext} {orders : List Order} {s : LaunchStep} (hc : c.Ok)
    (hs : StepSpec c s) (hos : c.os = actives orders c.mask)
    (hq : ∀ o ∈ orders, 0 < o.quantity ∧ o.quantity < U64) :
    ∃ a, allocate orders s = .ok a ∧ AllocateSpec c orders s a := by
  have hcheap := hs.cheap_nat
  have hmask := hs.mask_eq
  have hos' : actives orders s.activeMask = c.os := by rw [hmask, hos]
  have hmt : partialTotal c.os s < U64 := lt_of_le_of_lt (total_le_sum _ _) hc.quantities_lt
  have hnone : s.partialSide = none → partialTotal c.os s = 0 := by
    intro h
    have : partialTotal c.os s = total c.os fun _ => false :=
      total_congr fun o _ => by simp [isPartial, h]
    rw [this]
    simp [total]
  obtain ⟨pt, hpt, hpteq⟩ := partialUnits_ok hs hmt hnone
  have hptle : pt ≤ partialTotal c.os s := by
    rw [hpteq]
    calc s.fractionNumerator * partialTotal c.os s / s.fractionDenominator
        ≤ s.fractionDenominator * partialTotal c.os s / s.fractionDenominator :=
          Nat.div_le_div_right (Nat.mul_le_mul_right _ hs.fraction_le)
      _ = partialTotal c.os s := Nat.mul_div_cancel_left _ hs.fraction_pos
  have hzip : ∀ x ∈ orders.zipIdx, 0 < x.1.quantity ∧ x.1.quantity < U64 := fun x hx =>
    hq x.1 (List.fst_mem_of_mem_zipIdx hx)
  have hmt' : 0 + partialTotal (activeOf s.activeMask orders.zipIdx) s = partialTotal c.os s := by
    rw [← actives_eq, hos', Nat.zero_add]
  obtain ⟨a, ha, spec⟩ := allocateLoop_ok (s := s) hs.denominator_pos hcheap hptle hmt
    (fun hz => by rw [hpteq, hz]; simp) orders.zipIdx 0 0 hzip hmt' (by simp)
  have halloc : a.allocated = pt := by
    rw [spec.allocated_eq]
    rcases Nat.eq_zero_or_pos (partialTotal c.os s) with hz | hpos
    · rw [hz] at hptle ⊢
      simp [Nat.le_zero.mp hptle]
    · exact Nat.mul_div_cancel _ hpos
  refine ⟨a, ?_, ?_⟩
  · have hqw : quantityWhere (actives orders s.activeMask) (fun o => isPartial o s) = .ok (partialTotal c.os s) := by
      rw [hos']
      exact quantityWhere_eq hc.quantities_lt _
    rw [allocate, bind_of_ok hqw, bind_of_ok hpt, bind_of_ok ha, require_bind ⟨halloc, spec.seen_eq⟩]
    rfl
  have hfst : orders.zipIdx.map (·.1) = orders := by simp
  have hnet := spec.net_eq
  rw [hfst, ← actives_eq, hos', halloc] at hnet
  have hbal := hs.balance
  rw [sideSign_eq] at hbal
  have hfloor := floor_bounds (a := s.fractionNumerator) (b := partialTotal c.os s) hs.fraction_pos
  rw [← hpteq] at hfloor
  set x : ℚ := (s.fractionNumerator : ℚ) / s.fractionDenominator * partialTotal c.os s
  -- the rounded move differs from the exact one by the rounding of the partial group
  have hdiff : (net orders a.quantities : ℚ) = c.move s.price.val - sideInt s.partialSide * (x - pt) := by
    rw [hnet, ← hbal]
    push_cast
    ring
  have hlow := hs.neg_sold_le
  have hhigh := hs.le_remaining
  obtain ⟨hnear1, hnear2, hge, hle⟩ : c.move s.price.val - 1 < net orders a.quantities ∧
      (net orders a.quantities : ℚ) < c.move s.price.val + 1 ∧
      (-(c.sold : ℚ) - 1 < net orders a.quantities) ∧
      (net orders a.quantities : ℚ) < c.remaining + 1 := by
    rw [hdiff]
    rcases hside : s.partialSide with _ | _ | _
    · simp only [sideInt]
      push_cast
      refine ⟨?_, ?_, ?_, ?_⟩ <;> linarith
    · simp only [sideInt]
      push_cast
      refine ⟨?_, ?_, ?_, ?_⟩ <;> linarith
    · have hlt := hs.lt_remaining (by simp [hside])
      simp only [sideInt]
      push_cast
      refine ⟨?_, ?_, ?_, ?_⟩ <;> linarith
  have hgrants : List.Forall₂ (Grants s) (orders.zipIdx.map (·.1)) a.quantities :=
    List.forall₂_map_left_iff.mpr spec.grants
  refine
    { grants := hfst ▸ hgrants
      pays := fun hdust => ?_
      dust_subset := hmask ▸ spec.dust_subset
      move_lt_net := hnear1
      net_lt_move := hnear2
      neg_sold_le := ?_
      le_remaining := ?_ }
  · have hpays : List.Forall₂ (Pays s) (orders.zipIdx.map (·.1)) a.quantities := by
      refine List.forall₂_map_left_iff.mpr (spec.pays.imp fun x q hx => hx ?_)
      simp [hdust]
    exact hfst ▸ hpays
  · have : (-(c.sold : ℤ) - 1 : ℤ) < net orders a.quantities := by exact_mod_cast hge
    omega
  · have : net orders a.quantities < (c.remaining : ℤ) + 1 := by exact_mod_cast hle
    omega

end Noid.Tx
