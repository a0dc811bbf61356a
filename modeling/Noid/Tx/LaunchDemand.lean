import Mathlib.Tactic.FieldSimp
import Mathlib.Tactic.Positivity
import Noid.Tx.LaunchClearing

/-! # Demand at a price

The orders of a round demand, at a price `p`, any net quantity between `lower p` and `upper p`: the orders whose limit is
`p` may be filled or not.  Demand falls with the price and only jumps at a limit. -/

namespace Noid.Tx

open Noid.Lib Noid.Lib.Crossing List LaunchPrice

/-! ### Prices as rationals -/

/-- The price as a rational number. -/
def LaunchPrice.val (p : LaunchPrice) : ℚ := (p.numerator : ℚ) / p.denominator

section Compare

variable {a b : LaunchPrice}

section
variable (ha : 0 < a.denominator) (hb : 0 < b.denominator)
include ha hb

lemma comparePrice_eq_lt :
    comparePrice a b = .lt ↔ a.val < b.val := by
  have ha' : (0 : ℚ) < a.denominator := by exact_mod_cast ha
  have hb' : (0 : ℚ) < b.denominator := by exact_mod_cast hb
  rw [comparePrice, compare_lt_iff_lt, val, val, div_lt_div_iff₀ ha' hb']
  exact_mod_cast Iff.rfl

lemma comparePrice_eq_gt :
    comparePrice a b = .gt ↔ b.val < a.val := by
  rw [← comparePrice_eq_lt hb ha, comparePrice, comparePrice, compare_gt_iff_gt, compare_lt_iff_lt]

lemma comparePrice_eq_eq :
    comparePrice a b = .eq ↔ a.val = b.val := by
  have ha' : (a.denominator : ℚ) ≠ 0 := by exact_mod_cast ha.ne'
  have hb' : (b.denominator : ℚ) ≠ 0 := by exact_mod_cast hb.ne'
  rw [comparePrice, compare_eq_iff_eq, val, val, div_eq_div_iff ha' hb']
  exact_mod_cast Iff.rfl

lemma comparePrice_ne_gt :
    comparePrice a b ≠ .gt ↔ a.val ≤ b.val := by
  rw [ne_eq, comparePrice_eq_gt ha hb, not_lt]

lemma comparePrice_ne_lt :
    comparePrice a b ≠ .lt ↔ b.val ≤ a.val := by
  rw [ne_eq, comparePrice_eq_lt ha hb, not_lt]

end

end Compare

section Classify

variable {o : Order} {p : LaunchPrice}

section
variable (ho : 0 < o.limit.denominator) (hp : 0 < p.denominator)
include ho hp

lemma classify_marginal :
    classify o p = .marginal ↔ o.limit.val = p.val := by
  rw [eq_comm (a := o.limit.val), ← comparePrice_eq_eq hp ho]
  unfold classify
  cases comparePrice p o.limit <;> cases o.side <;> simp

lemma classify_full_buy (hs : o.side = .buy) : classify o p = .full ↔ p.val < o.limit.val := by
  rw [← comparePrice_eq_lt hp ho]
  unfold classify
  cases comparePrice p o.limit <;> simp [hs]

lemma classify_full_sell (hs : o.side = .sell) : classify o p = .full ↔ o.limit.val < p.val := by
  rw [← comparePrice_eq_gt hp ho]
  unfold classify
  cases comparePrice p o.limit <;> simp [hs]

lemma classify_inside_buy (hs : o.side = .buy) : classify o p ≠ .outside ↔ p.val ≤ o.limit.val := by
  rw [← comparePrice_ne_gt hp ho]
  unfold classify
  cases comparePrice p o.limit <;> simp [hs]

lemma classify_inside_sell (hs : o.side = .sell) : classify o p ≠ .outside ↔ o.limit.val ≤ p.val := by
  rw [← comparePrice_ne_lt hp ho]
  unfold classify
  cases comparePrice p o.limit <;> simp [hs]

end

end Classify

/-! ### Totals -/

/-- The total quantity of the orders that satisfy `p`. -/
def total (os : List Order) (p : Order → Bool) : ℕ := ((os.filter p).map (·.quantity)).sum

lemma total_cons (o : Order) (os : List Order) (p : Order → Bool) :
    total (o :: os) p = (if p o then o.quantity else 0) + total os p := by
  unfold total
  by_cases h : p o <;> simp [h]

variable {os : List Order} {p q : Order → Bool}

lemma total_le (h : ∀ o ∈ os, p o = true → q o = true) : total os p ≤ total os q := by
  induction os with
  | nil => exact le_rfl
  | cons o os ih =>
    have ih := ih fun o' ho' => h o' (.tail _ ho')
    have ho := h o (by simp)
    rw [total_cons, total_cons]
    split_ifs with hp hq hq
    · exact Nat.add_le_add_left ih _
    · exact absurd (ho hp) hq
    · exact Nat.add_le_add (Nat.zero_le _) ih
    · exact Nat.add_le_add_left ih _

lemma total_congr (h : ∀ o ∈ os, p o = true ↔ q o = true) : total os p = total os q :=
  le_antisymm (total_le fun o ho => (h o ho).mp) (total_le fun o ho => (h o ho).mpr)

lemma total_side_congr {side : LaunchSide} (h : ∀ o ∈ os, o.side = side → (p o = true ↔ q o = true)) :
    (total os fun o => decide (o.side = side) && p o) = total os fun o => decide (o.side = side) && q o := by
  refine total_congr fun o ho => ?_
  simp only [Bool.and_eq_true, decide_eq_true_eq]
  exact and_congr_right (h o ho)

lemma total_side_mono {side : LaunchSide} (h : ∀ o, p o = true → q o = true) :
    (total os fun o => decide (o.side = side) && p o) ≤ total os fun o => decide (o.side = side) && q o := by
  refine total_le fun o _ ho => ?_
  simp only [Bool.and_eq_true] at ho ⊢
  exact ho.imp_right (h o)

/-- A total splits over two disjoint parts. -/
theorem total_add {r : Order → Bool}
    (h : ∀ o ∈ os, (r o = true ↔ p o = true ∨ q o = true) ∧ ¬(p o = true ∧ q o = true)) :
    total os r = total os p + total os q := by
  induction os with
  | nil => rfl
  | cons o os ih =>
    have ih := ih fun o' ho' => h o' (.tail _ ho')
    rw [total_cons, total_cons, total_cons, ih]
    by_cases hp : p o <;> by_cases hq : q o <;> simp_all <;> omega

lemma total_le_sum (os : List Order) (p : Order → Bool) :
    total os p ≤ (os.map (·.quantity)).sum := by
  have : total os p ≤ total os fun _ => true := total_le fun _ _ _ => rfl
  simpa [total] using this

lemma total_sublist {l l' : List Order} (h : l.Sublist l') (p : Order → Bool) :
    total l p ≤ total l' p :=
  ((h.filter p).map _).sum_le_sum (by simp)

lemma quantityWhere_eq (h : (os.map (·.quantity)).sum < U64)
    (p : Order → Bool) : quantityWhere os p = .ok (total os p) :=
  checkedSum_of_lt _ (lt_of_le_of_lt (total_le_sum os p) h)

/-! ### Demand -/

section Demand

variable (os : List Order) (p : ℚ)

/-- Buys that pay more than `p`. -/
def buysAbove : ℕ := total os fun o => decide (o.side = .buy) && decide (p < o.limit.val)

/-- Buys that pay `p` or more. -/
def buysFrom : ℕ := total os fun o => decide (o.side = .buy) && decide (p ≤ o.limit.val)

/-- Sells that ask less than `p`. -/
def sellsBelow : ℕ := total os fun o => decide (o.side = .sell) && decide (o.limit.val < p)

/-- Sells that ask `p` or less. -/
def sellsTo : ℕ := total os fun o => decide (o.side = .sell) && decide (o.limit.val ≤ p)

/-- The least net demand at `p`. -/
def lower : ℚ := (buysAbove os p : ℚ) - sellsTo os p

/-- The greatest net demand at `p`. -/
def upper : ℚ := (buysFrom os p : ℚ) - sellsBelow os p

end Demand

section Demand

variable {os : List Order} {p : ℚ}

lemma buysFrom_le_buysAbove {q : ℚ} (h : p < q) : buysFrom os q ≤ buysAbove os p := by
  refine total_side_mono fun o ho => ?_
  exact decide_eq_true (h.trans_le (of_decide_eq_true ho))

lemma sellsTo_le_sellsBelow {q : ℚ} (h : p < q) : sellsTo os p ≤ sellsBelow os q := by
  refine total_side_mono fun o ho => ?_
  exact decide_eq_true ((of_decide_eq_true ho).trans_lt h)

/-- Demand falls with the price, across the jumps. -/
theorem upper_le_lower {q : ℚ} (h : p < q) : upper os q ≤ lower os p := by
  have hb : (buysFrom os q : ℚ) ≤ buysAbove os p := by exact_mod_cast buysFrom_le_buysAbove h
  have hs : (sellsTo os p : ℚ) ≤ sellsBelow os q := by exact_mod_cast sellsTo_le_sellsBelow h
  unfold upper lower
  linarith

lemma lower_le_upper (p : ℚ) : lower os p ≤ upper os p := by
  have hb : buysAbove os p ≤ buysFrom os p := total_side_mono fun o ho => decide_eq_true (of_decide_eq_true ho).le
  have hs : sellsBelow os p ≤ sellsTo os p := total_side_mono fun o ho => decide_eq_true (of_decide_eq_true ho).le
  have hb' : (buysAbove os p : ℚ) ≤ buysFrom os p := by exact_mod_cast hb
  have hs' : (sellsBelow os p : ℚ) ≤ sellsTo os p := by exact_mod_cast hs
  unfold upper lower
  linarith

/-- Buys at or above the upper end of a gap. -/
def gapBuys (os : List Order) (g : Option ℚ × Option ℚ) : ℕ :=
  total os fun o => decide (o.side = .buy) && g.2.any fun b => decide (b ≤ o.limit.val)

/-- Sells at or below the lower end of a gap. -/
def gapSells (os : List Order) (g : Option ℚ × Option ℚ) : ℕ :=
  total os fun o => decide (o.side = .sell) && g.1.any fun a => decide (o.limit.val ≤ a)

/-- The net demand inside a gap between limits. -/
def gapDemand (os : List Order) (g : Option ℚ × Option ℚ) : ℚ := (gapBuys os g : ℚ) - gapSells os g

variable {g : Option ℚ × Option ℚ}

/-- No order has its limit inside the gap. -/
def Separates (os : List Order) (g : Option ℚ × Option ℚ) : Prop :=
  (∀ a ∈ g.1, ∀ b ∈ g.2, a < b) ∧ ∀ o ∈ os, (∃ a ∈ g.1, o.limit.val ≤ a) ∨ ∃ b ∈ g.2, b ≤ o.limit.val

variable {o : Order}

lemma Separates.any_high (h : Separates os g) (ho : o ∈ os) :
    (g.2.any fun b => decide (b ≤ o.limit.val)) = true ↔ ∀ a ∈ g.1, a < o.limit.val := by
  simp only [Option.any_eq_true, decide_eq_true_eq]
  constructor
  · rintro ⟨b, hb, hle⟩ a ha
    exact (h.1 a ha b hb).trans_le hle
  · intro hlt
    rcases h.2 o ho with ⟨a, ha, hle⟩ | hb
    · exact absurd (hlt a ha) (not_lt.mpr hle)
    · exact hb

lemma Separates.any_low (h : Separates os g) (ho : o ∈ os) :
    (g.1.any fun a => decide (o.limit.val ≤ a)) = true ↔ ∀ b ∈ g.2, o.limit.val < b := by
  simp only [Option.any_eq_true, decide_eq_true_eq]
  constructor
  · rintro ⟨a, ha, hle⟩ b hb
    exact hle.trans_lt (h.1 a ha b hb)
  · intro hlt
    rcases h.2 o ho with ha | ⟨b, hb, hle⟩
    · exact ha
    · exact absurd (hlt b hb) (not_lt.mpr hle)

lemma Separates.buysAbove_low (h : Separates os g) {a : ℚ} (ha : a ∈ g.1) :
    buysAbove os a = gapBuys os g := by
  refine total_side_congr fun o ho _ => ?_
  rw [h.any_high ho, decide_eq_true_eq]
  refine ⟨fun hlt a' ha' => ?_, fun hlt => hlt a ha⟩
  rwa [Option.mem_unique ha' ha]

lemma sellsTo_low {a : ℚ} (ha : a ∈ g.1) : sellsTo os a = gapSells os g := by
  refine total_congr fun o _ => ?_
  rw [Option.mem_def] at ha
  simp [ha]

lemma buysFrom_high {b : ℚ} (hb : b ∈ g.2) : buysFrom os b = gapBuys os g := by
  refine total_congr fun o _ => ?_
  rw [Option.mem_def] at hb
  simp [hb]

section
variable (h : Separates os g)
include h

lemma Separates.sellsBelow_high {b : ℚ} (hb : b ∈ g.2) :
    sellsBelow os b = gapSells os g := by
  refine total_side_congr fun o ho _ => ?_
  rw [h.any_low ho, decide_eq_true_eq]
  refine ⟨fun hlt b' hb' => ?_, fun hlt => hlt b hb⟩
  rwa [Option.mem_unique hb' hb]

lemma Separates.buys_between (hp : Between g p) :
    buysAbove os p = gapBuys os g ∧ buysFrom os p = gapBuys os g := by
  have hany : ∀ o ∈ os, (g.2.any fun b => decide (b ≤ o.limit.val)) = true → p < o.limit.val := by
    intro o _ hany
    obtain ⟨b, hb, hle⟩ := (Option.any_eq_true _ _).mp hany
    exact (hp.2 b hb).trans_le (of_decide_eq_true hle)
  constructor
  · refine total_side_congr fun o ho _ => ?_
    rw [decide_eq_true_eq]
    exact ⟨fun hlt => (h.any_high ho).mpr fun a ha => (hp.1 a ha).trans hlt, hany o ho⟩
  · refine total_side_congr fun o ho _ => ?_
    rw [decide_eq_true_eq]
    exact ⟨fun hle => (h.any_high ho).mpr fun a ha => (hp.1 a ha).trans_le hle, fun h => (hany o ho h).le⟩

lemma Separates.sells_between (hp : Between g p) :
    sellsBelow os p = gapSells os g ∧ sellsTo os p = gapSells os g := by
  have hany : ∀ o ∈ os, (g.1.any fun a => decide (o.limit.val ≤ a)) = true → o.limit.val < p := by
    intro o _ hany
    obtain ⟨a, ha, hle⟩ := (Option.any_eq_true _ _).mp hany
    exact (of_decide_eq_true hle).trans_lt (hp.1 a ha)
  constructor
  · refine total_side_congr fun o ho _ => ?_
    rw [decide_eq_true_eq]
    exact ⟨fun hlt => (h.any_low ho).mpr fun b hb => hlt.trans (hp.2 b hb), hany o ho⟩
  · refine total_side_congr fun o ho _ => ?_
    rw [decide_eq_true_eq]
    exact ⟨fun hle => (h.any_low ho).mpr fun b hb => hle.trans_lt (hp.2 b hb), fun h => (hany o ho h).le⟩

lemma Separates.lower_low {a : ℚ} (ha : a ∈ g.1) :
    lower os a = gapDemand os g := by
  rw [lower, h.buysAbove_low ha, sellsTo_low ha, gapDemand]

lemma Separates.upper_high {b : ℚ} (hb : b ∈ g.2) :
    upper os b = gapDemand os g := by
  rw [upper, buysFrom_high hb, h.sellsBelow_high hb, gapDemand]

lemma Separates.lower_between (hp : Between g p) :
    lower os p = gapDemand os g := by
  rw [lower, (h.buys_between hp).1, (h.sells_between hp).2, gapDemand]

lemma Separates.upper_between (hp : Between g p) :
    upper os p = gapDemand os g := by
  rw [upper, (h.buys_between hp).2, (h.sells_between hp).1, gapDemand]

end

end Demand

/-! ### Limits and gaps -/

def limits (os : List Order) : List ℚ := (boundaries os).map LaunchPrice.val

def gapVal (g : Option LaunchPrice × Option LaunchPrice) : Option ℚ × Option ℚ :=
  (g.1.map LaunchPrice.val, g.2.map LaunchPrice.val)

section Limits

variable {os : List Order} (hos : ∀ o ∈ os, 0 < o.limit.denominator)
  {g : Option LaunchPrice × Option LaunchPrice}

lemma mem_boundaries {b : LaunchPrice} (hb : b ∈ boundaries os) : ∃ o ∈ os, o.limit = b := by
  have hmem := (destutter_sublist _ _).subset hb
  simpa using hmem

lemma gapVal_mem (hg : g ∈ gaps none (boundaries os)) : gapVal g ∈ gaps none (limits os) :=
  mem_gaps_map val hg
include hos

lemma boundary_denominator {b : LaunchPrice} (hb : b ∈ boundaries os) : 0 < b.denominator := by
  obtain ⟨o, ho, rfl⟩ := mem_boundaries hb
  exact hos o ho

lemma limits_eq :
    limits os = ((os.map fun o => o.limit.val).insertionSort (· ≤ ·)).destutter (· ≠ ·) := by
  have hpos : ∀ a ∈ os.map (·.limit), 0 < a.denominator := by
    intro a ha
    obtain ⟨o, ho, rfl⟩ := mem_map.mp ha
    exact hos o ho
  refine Eq.trans (b := (map val _).destutter (· ≠ ·)) (map_destutter ?_) ?_
  · intro a ha b hb
    rw [mem_insertionSort] at ha hb
    rw [ne_eq, comparePrice_eq_eq (hpos a ha) (hpos b hb)]
  · rw [map_insertionSort _ (· ≤ ·), map_map]
    · rfl
    · intro a ha b hb
      exact comparePrice_ne_gt (hpos a ha) (hpos b hb)

lemma limits_pairwise : (limits os).Pairwise (· < ·) := by
  rw [limits_eq hos]
  exact pairwise_destutter_ne (pairwise_insertionSort (· ≤ ·) _)

lemma mem_limits {x : ℚ} : x ∈ limits os ↔ ∃ o ∈ os, o.limit.val = x := by
  rw [limits_eq hos, mem_destutter_ne, mem_insertionSort, mem_map]

lemma separates {g : Option ℚ × Option ℚ} (hg : g ∈ gaps none (limits os)) : Separates os g := by
  refine ⟨low_lt_high_of_mem_gaps (limits_pairwise hos) (by simp) g hg, fun o ho => ?_⟩
  exact le_or_le_of_mem_gaps (limits_pairwise hos) g hg _ ((mem_limits hos).mpr ⟨o, ho, rfl⟩)

lemma gap_denominators (hg : g ∈ gaps none (boundaries os)) :
    (∀ a ∈ g.1, 0 < a.denominator) ∧ ∀ b ∈ g.2, 0 < b.denominator := by
  obtain ⟨h1, h2⟩ := mem_of_mem_gaps g hg
  refine ⟨fun a ha => ?_, fun b hb => boundary_denominator hos (h2 b hb)⟩
  rcases h1 with h | ⟨a', ha', h⟩
  · simp [h] at ha
  · obtain rfl : a' = a := by simpa [h] using ha
    exact boundary_denominator hos ha'

lemma gap_buys (hg : g ∈ gaps none (boundaries os)) : (total os fun o => decide (o.side = .buy) &&
      g.2.any fun p => decide (comparePrice o.limit p ≠ .lt)) = gapBuys os (gapVal g) := by
  refine total_side_congr fun o ho _ => ?_
  simp only [gapVal, Option.any_map, Option.any_eq_true, decide_eq_true_eq]
  refine exists_congr fun b => and_congr_right fun hb => ?_
  exact comparePrice_ne_lt (hos o ho) ((gap_denominators hos hg).2 b hb)

lemma gap_sells (hg : g ∈ gaps none (boundaries os)) : (total os fun o => decide (o.side = .sell) &&
      g.1.any fun p => decide (comparePrice o.limit p ≠ .gt)) = gapSells os (gapVal g) := by
  refine total_side_congr fun o ho _ => ?_
  simp only [gapVal, Option.any_map, Option.any_eq_true, decide_eq_true_eq]
  refine exists_congr fun a => and_congr_right fun ha => ?_
  exact comparePrice_ne_gt (hos o ho) ((gap_denominators hos hg).1 a ha)

lemma between_iff (hg : g ∈ gaps none (boundaries os)) {p : LaunchPrice} (hp : 0 < p.denominator) :
    ((g.1.all fun q => decide (comparePrice p q = .gt)) = true ∧
        (g.2.all fun q => decide (comparePrice p q = .lt)) = true) ↔
      Between (gapVal g) p.val := by
  obtain ⟨hlow, hhigh⟩ := gap_denominators hos hg
  simp only [Option.all_eq_true, decide_eq_true_eq, Between, gapVal, Option.mem_def,
    Option.map_eq_some_iff, forall_exists_index, and_imp, forall_apply_eq_imp_iff₂]
  refine and_congr ?_ ?_
  · exact forall_congr' fun a => forall_congr' fun ha => comparePrice_eq_gt hp (hlow a ha)
  · exact forall_congr' fun b => forall_congr' fun hb => comparePrice_eq_lt hp (hhigh b hb)

end Limits

/-! ### Orders at a price -/

/-- The quantity of one side whose limit is the price. -/
def marginal (os : List Order) (price : LaunchPrice) (side : LaunchSide) : ℕ :=
  total os fun o => decide (o.side = side) && decide (classify o price = .marginal)

section AtPrice

variable {os : List Order} (hos : ∀ o ∈ os, 0 < o.limit.denominator) {price : LaunchPrice}
  (hp : 0 < price.denominator)
include hos hp

lemma full_buys : (total os fun o => decide (o.side = .buy) && decide (classify o price = .full)) =
      buysAbove os price.val := by
  refine total_side_congr fun o ho hb => ?_
  rw [decide_eq_true_eq, decide_eq_true_eq, classify_full_buy (hos o ho) hp hb]

lemma full_sells : (total os fun o => decide (o.side = .sell) && decide (classify o price = .full)) =
      sellsBelow os price.val := by
  refine total_side_congr fun o ho hs => ?_
  rw [decide_eq_true_eq, decide_eq_true_eq, classify_full_sell (hos o ho) hp hs]

lemma inside_buys : (total os fun o => decide (o.side = .buy) && decide (classify o price ≠ .outside)) =
      buysFrom os price.val := by
  refine total_side_congr fun o ho hb => ?_
  rw [decide_eq_true_eq, decide_eq_true_eq, classify_inside_buy (hos o ho) hp hb]

lemma inside_sells : (total os fun o => decide (o.side = .sell) && decide (classify o price ≠ .outside)) =
      sellsTo os price.val := by
  refine total_side_congr fun o ho hs => ?_
  rw [decide_eq_true_eq, decide_eq_true_eq, classify_inside_sell (hos o ho) hp hs]

lemma marginal_buys :
    buysFrom os price.val = buysAbove os price.val + marginal os price .buy := by
  refine total_add fun o ho => ?_
  simp only [Bool.and_eq_true, decide_eq_true_eq, classify_marginal (hos o ho) hp]
  constructor
  · rw [le_iff_lt_or_eq, eq_comm]
    tauto
  · rintro ⟨⟨-, hlt⟩, -, heq⟩
    exact hlt.ne' heq

lemma marginal_sells :
    sellsTo os price.val = sellsBelow os price.val + marginal os price .sell := by
  refine total_add fun o ho => ?_
  simp only [Bool.and_eq_true, decide_eq_true_eq, classify_marginal (hos o ho) hp]
  constructor
  · rw [le_iff_lt_or_eq]
    tauto
  · rintro ⟨⟨-, hlt⟩, -, heq⟩
    exact hlt.ne heq

lemma marginal_cast : (buysFrom os price.val : ℚ) = buysAbove os price.val + marginal os price .buy ∧
    (sellsTo os price.val : ℚ) = sellsBelow os price.val + marginal os price .sell := by
  exact_mod_cast And.intro (marginal_buys hos hp) (marginal_sells hos hp)

end AtPrice

end Noid.Tx
