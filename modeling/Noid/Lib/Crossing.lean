import Mathlib.Data.List.Destutter
import Noid.Lib.Checked

/-! # The zero of an increasing step relation

A price that balances a market is a zero of a set-valued excess: at `p` the excess is anything between `lo p` and `hi p`,
and from its zero on it increases strictly.  Away from finitely many boundaries the two bounds agree, so `search` looks
through the gaps between them and then through the boundaries. -/

namespace Noid.Lib.Crossing

open List

/-! ### Zeros -/

section Zeros

variable {α β : Type} [LinearOrder α] [LinearOrder β] [Zero β] {lo hi : α → β}

/-- Zero lies between the bounds at `p`. -/
def IsZero (lo hi : α → β) (p : α) : Prop := lo p ≤ 0 ∧ 0 ≤ hi p

lemma IsZero.unique (hstep : ∀ p q, 0 ≤ hi p → p < q → hi p < lo q) {p q : α}
    (hp : IsZero lo hi p) (hq : IsZero lo hi q) : p = q := by
  rcases lt_trichotomy p q with h | h | h
  · exact absurd (hstep p q hp.2 h) (not_lt.mpr (hq.1.trans hp.2))
  · exact h
  · exact absurd (hstep q p hq.2 h) (not_lt.mpr (hp.1.trans hq.2))

end Zeros

/-! ### Gaps -/

section Gaps

variable {α : Type}

/-- The gaps of a list of boundaries to the right of `low`. -/
def gaps : Option α → List α → List (Option α × Option α)
  | low, [] => [(low, none)]
  | low, b :: bs => (low, some b) :: gaps (some b) bs

lemma gaps_map {γ : Type} (f : α → γ) :
    ∀ (low : Option α) (bs : List α),
      (gaps low bs).map (Prod.map (Option.map f) (Option.map f)) = gaps (low.map f) (bs.map f)
  | low, [] => rfl
  | low, b :: bs => by
    have ih := gaps_map f (some b) bs
    simp only [gaps, map_cons, ih, Option.map_some, Prod.map_apply]

lemma mem_gaps_map {γ : Type} (f : α → γ) {bs : List α} {g : Option α × Option α}
    (hg : g ∈ gaps none bs) : (g.1.map f, g.2.map f) ∈ gaps none (bs.map f) := by
  have hmap := gaps_map f none bs
  rw [Option.map_none] at hmap
  rw [← hmap]
  exact mem_map.mpr ⟨g, hg, rfl⟩

/-- The lower end of a gap of `bs` is `low` or a boundary, the upper end a boundary. -/
theorem mem_of_mem_gaps :
    ∀ {low : Option α} {bs : List α}, ∀ g ∈ gaps low bs, (g.1 = low ∨ ∃ a ∈ bs, g.1 = some a) ∧ ∀ b ∈ g.2, b ∈ bs
  | low, [], g, hg => by
    have : g = (low, none) := by simpa [gaps] using hg
    simp [this]
  | low, b :: bs, g, hg => by
    rw [gaps, mem_cons] at hg
    rcases hg with rfl | hg
    · simp
    · obtain ⟨h1, h2⟩ := mem_of_mem_gaps g hg
      refine ⟨.inr ?_, fun c hc => mem_cons_of_mem _ (h2 c hc)⟩
      rcases h1 with h | ⟨a, ha, h⟩
      · exact ⟨b, by simp, h⟩
      · exact ⟨a, mem_cons_of_mem _ ha, h⟩

lemma exists_isZero {β : Type} [LinearOrder β] [Zero β] {lo hi : α → β} :
    ∀ (bs : List α) (low : Option α), (∀ a ∈ low, hi a < 0) →
      (∀ g ∈ gaps low bs, (∀ a ∈ g.1, hi a < 0) → (∀ b ∈ g.2, 0 < lo b) → ∃ p, IsZero lo hi p) →
      ∃ p, IsZero lo hi p
  | [], low, hlow, hgap => hgap (low, none) (by simp [gaps]) hlow (by simp)
  | b :: bs, low, hlow, hgap => by
    by_cases hhi : hi b < 0
    · exact exists_isZero bs (some b) (by simpa using hhi)
        fun g hg => hgap g (.tail _ hg)
    · by_cases hlo : 0 < lo b
      · exact hgap (low, some b) (by simp [gaps]) hlow (by simpa using hlo)
      · exact ⟨b, not_lt.mp hlo, not_lt.mp hhi⟩

variable [LinearOrder α]

/-- Strictly between two optional bounds. -/
def Between (g : Option α × Option α) (p : α) : Prop := (∀ a ∈ g.1, a < p) ∧ ∀ b ∈ g.2, p < b

lemma low_le_of_mem_gaps :
    ∀ {a : α} {bs : List α}, (a :: bs).Pairwise (· < ·) → ∀ g ∈ gaps (some a) bs, ∃ c ∈ g.1, a ≤ c
  | a, [], _, g, hg => by
    have : g = (some a, none) := by simpa [gaps] using hg
    exact ⟨a, by simp [this], le_rfl⟩
  | a, b :: bs, hs, g, hg => by
    rw [gaps, mem_cons] at hg
    rcases hg with rfl | hg
    · exact ⟨a, rfl, le_rfl⟩
    · obtain ⟨c, hc, hbc⟩ := low_le_of_mem_gaps (pairwise_cons.mp hs).2 g hg
      exact ⟨c, hc, ((pairwise_cons.mp hs).1 b (by simp)).le.trans hbc⟩

lemma low_lt_high_of_mem_gaps :
    ∀ {low : Option α} {bs : List α}, bs.Pairwise (· < ·) → (∀ a ∈ low, ∀ b ∈ bs, a < b) →
      ∀ g ∈ gaps low bs, ∀ a ∈ g.1, ∀ b ∈ g.2, a < b
  | low, [], _, _, g, hg, a, _, b, hb => by
    have : g = (low, none) := by simpa [gaps] using hg
    simp [this] at hb
  | low, c :: bs, hs, hlow, g, hg, a, ha, b, hb => by
    obtain ⟨hc, hs'⟩ := pairwise_cons.mp hs
    rw [gaps, mem_cons] at hg
    rcases hg with rfl | hg
    · obtain rfl : c = b := by simpa using hb
      exact hlow a ha c (by simp)
    · exact low_lt_high_of_mem_gaps hs' (by simpa using hc) g hg a ha b hb

/-- A gap separates the boundaries: each is at or below its lower end, or at or above its upper. -/
theorem le_or_le_of_mem_gaps :
    ∀ {low : Option α} {bs : List α}, bs.Pairwise (· < ·) → ∀ g ∈ gaps low bs, ∀ x ∈ bs,
      (∃ a ∈ g.1, x ≤ a) ∨ ∃ b ∈ g.2, b ≤ x
  | low, [], _, g, _, x, hx => by simp at hx
  | low, b :: bs, hs, g, hg, x, hx => by
    obtain ⟨hb, hs'⟩ := pairwise_cons.mp hs
    rw [gaps, mem_cons] at hg
    rcases hg with rfl | hg
    · refine .inr ⟨b, rfl, ?_⟩
      rcases mem_cons.mp hx with rfl | hx
      · exact le_rfl
      · exact (hb x hx).le
    · rcases mem_cons.mp hx with rfl | hx
      · obtain ⟨c, hc, hxc⟩ := low_le_of_mem_gaps hs g hg
        exact .inl ⟨c, hc, hxc⟩
      · exact le_or_le_of_mem_gaps hs' g hg x hx

lemma not_between_of_mem {low : Option α} {bs : List α} (hs : bs.Pairwise (· < ·))
    {g : Option α × Option α} (hg : g ∈ gaps low bs) {x : α} (hx : x ∈ bs) : ¬ Between g x := by
  rintro ⟨h1, h2⟩
  rcases le_or_le_of_mem_gaps hs g hg x hx with ⟨a, ha, hxa⟩ | ⟨b, hb, hbx⟩
  · exact absurd (h1 a ha) (not_lt.mpr hxa)
  · exact absurd (h2 b hb) (not_lt.mpr hbx)

lemma gaps_disjoint :
    ∀ {low : Option α} {bs : List α}, bs.Pairwise (· < ·) →
      (gaps low bs).Pairwise fun g g' => ∀ p, Between g p → ¬ Between g' p
  | low, [], _ => pairwise_singleton _ _
  | low, b :: bs, hs => by
    refine pairwise_cons.mpr ⟨fun g hg p hp hp' => ?_, gaps_disjoint (pairwise_cons.mp hs).2⟩
    obtain ⟨c, hc, hbc⟩ := low_le_of_mem_gaps hs g hg
    exact absurd ((hp.2 b rfl).trans_le hbc) (not_lt.mpr (hp'.1 c hc).le)

/-- Every point above `low` is a boundary or lies in a gap. -/
theorem mem_or_between :
    ∀ (low : Option α) (bs : List α) {p : α}, (∀ a ∈ low, a < p) → p ∈ bs ∨ ∃ g ∈ gaps low bs, Between g p
  | low, [], p, hp => .inr ⟨(low, none), by simp [gaps], hp, by simp⟩
  | low, b :: bs, p, hp => by
    rcases lt_trichotomy p b with h | h | h
    · exact .inr ⟨(low, some b), by simp [gaps], hp, by simpa using h⟩
    · exact .inl (by simp [h])
    · rcases mem_or_between (some b) bs (p := p) (by simpa using h) with hm | ⟨g, hg, hgp⟩
      · exact .inl (.tail _ hm)
      · exact .inr ⟨g, mem_cons_of_mem _ hg, hgp⟩

end Gaps

/-! ### Sorted boundaries -/

section Sorted

variable {α : Type} [LinearOrder α]

lemma mem_destutter'_ne {x : α} :
    ∀ (l : List α) (a : α), x ∈ a :: l → x ∈ l.destutter' (· ≠ ·) a
  | [], a, h => by simpa using h
  | b :: l, a, h => by
    by_cases hab : a = b
    · subst hab
      rw [destutter'_cons_neg _ (by simp)]
      exact mem_destutter'_ne l a (by simpa using h)
    · rw [destutter'_cons_pos _ hab]
      rcases mem_cons.mp h with rfl | h
      · simp
      · exact mem_cons_of_mem _ (mem_destutter'_ne l b h)

lemma mem_destutter_ne {x : α} {l : List α} : x ∈ l.destutter (· ≠ ·) ↔ x ∈ l := by
  refine ⟨fun h => (destutter_sublist _ l).subset h, fun h => ?_⟩
  cases l with
  | nil => simp at h
  | cons a l => exact mem_destutter'_ne l a h

/-- A sorted list without its repetitions increases strictly. -/
theorem pairwise_destutter_ne {l : List α} (hs : l.Pairwise (· ≤ ·)) : (l.destutter (· ≠ ·)).Pairwise (· < ·) := by
  have hle : (l.destutter (· ≠ ·)).IsChain (· ≤ ·) :=
    isChain_iff_pairwise.mpr (hs.sublist (destutter_sublist _ l))
  have hne : (l.destutter (· ≠ ·)).IsChain (· ≠ ·) := isChain_destutter _ l
  refine isChain_iff_pairwise.mp (isChain_iff_getElem.mpr fun i hi => ?_)
  exact lt_of_le_of_ne (isChain_iff_getElem.mp hle i hi) (isChain_iff_getElem.mp hne i hi)

end Sorted

/-! ### Looking for the only candidate -/

section Scan

variable {ε ι σ : Type}

/-- Record a candidate; a second one is an error. -/
def install (e : ε) : Option σ → σ → Except ε (Option σ)
  | none, s => .ok (some s)
  | some _, _ => .error e

/-- The loop that installs what `eval` finds. -/
def scan (e : ε) (eval : ι → Except ε (Option σ)) : Option σ → List ι → Except ε (Option σ)
  | cand, [] => .ok cand
  | cand, i :: l => do
    match ← eval i with
    | none => scan e eval cand l
    | some s => do
      let cand ← install e cand s
      scan e eval cand l

/-- The only member of a list, if any; an error when there are several. -/
def atMostOne (e : ε) : List σ → Except ε (Option σ)
  | [] => .ok none
  | [s] => .ok (some s)
  | _ => .error e

variable {eval : ι → Except ε (Option σ)}

lemma scan_eq (e : ε) {f : ι → Option σ} :
    ∀ (l : List ι) (cand : Option σ), (∀ i ∈ l, eval i = .ok (f i)) →
      scan e eval cand l = atMostOne e (cand.toList ++ l.filterMap f)
  | [], cand, _ => by cases cand <;> rfl
  | i :: l, cand, h => by
    have hi : eval i = .ok (f i) := h i (by simp)
    have hl : ∀ i ∈ l, eval i = .ok (f i) := fun i hi => h i (.tail _ hi)
    rw [scan, bind_of_ok hi]
    cases hf : f i with
    | none =>
      simp only [filterMap_cons, hf]
      exact scan_eq e l cand hl
    | some s =>
      simp only [filterMap_cons, hf]
      cases cand with
      | none =>
        exact scan_eq e l (some s) hl
      | some t => rfl

/-- What a try that does not fail has found. -/
def found : Except ε (Option σ) → Option σ
  | .ok r => r
  | .error _ => none

lemma scan_found (e : ε) {l : List ι} (h : ∀ i ∈ l, ∃ r, eval i = .ok r) (cand : Option σ) :
    scan e eval cand l = atMostOne e (cand.toList ++ l.filterMap fun i => found (eval i)) := by
  refine scan_eq e l cand fun i hi => ?_
  obtain ⟨r, hr⟩ := h i hi
  rw [hr, found]

/-- Two loops over one candidate are one search over both lists. -/
theorem scan_scan (e : ε) {κ : Type} {l : List ι}
    {eval' : κ → Except ε (Option σ)} {l' : List κ} (h : ∀ i ∈ l, ∃ r, eval i = .ok r)
    (h' : ∀ k ∈ l', ∃ r, eval' k = .ok r) :
    (scan e eval none l >>= fun c => scan e eval' c l') = atMostOne e (l.filterMap (fun i => found (eval i)) ++
        l'.filterMap fun k => found (eval' k)) := by
  rw [scan_found e h]
  rcases hl : l.filterMap (fun i => found (eval i)) with _ | ⟨s, _ | ⟨t, rest⟩⟩
  · exact scan_found e h' none
  · exact scan_found e h' (some s)
  · rfl

/-- A list of tries of which no two can succeed and one does has one result. -/
theorem filterMap_eq_singleton {f : ι → Option σ} {x : ι} {s : σ} :
    ∀ {l : List ι}, l.Pairwise (fun a b => f a = none ∨ f b = none) → x ∈ l → f x = some s → l.filterMap f = [s]
  | [], _, hx, _ => by simp at hx
  | a :: l, hp, hx, hs => by
    obtain ⟨ha, hl⟩ := pairwise_cons.mp hp
    rcases mem_cons.mp hx with rfl | hx
    · have hrest : l.filterMap f = [] := by
        rw [filterMap_eq_nil_iff]
        intro b hb
        simpa [hs] using ha b hb
      simp [hs, hrest]
    · have hnone : f a = none := by simpa [hs] using ha x hx
      rw [filterMap_cons, hnone]
      exact filterMap_eq_singleton hl hx hs

end Scan

/-! ### The search for a zero -/

section Search

variable {ε ι σ α : Type} [LinearOrder α]

/-- Every gap first, then every boundary. -/
def search (e : ε) (inGap : Option ι × Option ι → Except ε (Option σ))
    (atBoundary : ι → Except ε (Option σ)) (bs : List ι) : Except ε σ := do
  let candidate ← scan e inGap none (gaps none bs)
  let candidate ← scan e atBoundary candidate bs
  orElseThrow e candidate

/-- The tries of a search for the zero `Z`: none fails, and each finds the zero exactly if it is in its range. -/
structure Tries (val : ι → α) (place : σ → α) (Z : α → Prop)
    (inGap : Option ι × Option ι → Except ε (Option σ)) (atBoundary : ι → Except ε (Option σ))
    (bs : List ι) : Prop where
  sorted : (bs.map val).Pairwise (· < ·)
  unique : ∀ p q, Z p → Z q → p = q
  gap : ∀ g ∈ gaps none bs, ∃ r, inGap g = .ok r ∧
    (∀ s ∈ r, Z (place s) ∧ Between (g.1.map val, g.2.map val) (place s)) ∧
    ∀ p, Between (g.1.map val, g.2.map val) p → Z p → r ≠ none
  boundary : ∀ b ∈ bs, ∃ r, atBoundary b = .ok r ∧ (∀ s ∈ r, Z (place s) ∧ place s = val b) ∧ (Z (val b) → r ≠ none)

variable {val : ι → α} {place : σ → α} {Z : α → Prop} {e : ε}
  {inGap : Option ι × Option ι → Except ε (Option σ)} {atBoundary : ι → Except ε (Option σ)}
  {bs : List ι}

lemma none_or_none {s t : Option σ} (h : ∀ x ∈ s, ∀ y ∈ t, False) : s = none ∨ t = none := by
  cases s with
  | none => exact .inl rfl
  | some x => exact .inr (Option.eq_none_iff_forall_not_mem.mpr (h x rfl))

variable (h : Tries val place Z inGap atBoundary bs)
include h

lemma Tries.search_eq :
    search e inGap atBoundary bs = (atMostOne e ((gaps none bs).filterMap (fun g => found (inGap g)) ++
        bs.filterMap fun b => found (atBoundary b)) >>= orElseThrow e) := by
  rw [← scan_scan e]
  · simp only [search, bind_assoc]
  · intro g hg
    obtain ⟨r, hr, -⟩ := h.gap g hg
    exact ⟨r, hr⟩
  · intro b hb
    obtain ⟨r, hr, -⟩ := h.boundary b hb
    exact ⟨r, hr⟩

lemma Tries.found_gap {g : Option ι × Option ι} (hg : g ∈ gaps none bs) {s : σ} (hs : found (inGap g) = some s) :
    Z (place s) ∧ Between (g.1.map val, g.2.map val) (place s) := by
  obtain ⟨r, hr, hspec, -⟩ := h.gap g hg
  rw [hr, found] at hs
  exact hspec s hs

lemma Tries.found_boundary {b : ι} (hb : b ∈ bs) {s : σ}
    (hs : found (atBoundary b) = some s) : Z (place s) ∧ place s = val b := by
  obtain ⟨r, hr, hspec, -⟩ := h.boundary b hb
  rw [hr, found] at hs
  exact hspec s hs

lemma Tries.boundary_pairwise :
    bs.Pairwise fun a b => found (atBoundary a) = none ∨ found (atBoundary b) = none := by
  refine (pairwise_map.mp h.sorted).imp_of_mem fun {a b} ha hb hlt => ?_
  refine none_or_none fun s hs t ht => ?_
  obtain ⟨hzs, hps⟩ := h.found_boundary ha hs
  obtain ⟨hzt, hpt⟩ := h.found_boundary hb ht
  rw [← hps, ← hpt] at hlt
  exact hlt.ne (h.unique _ _ hzs hzt)

/-- At most one gap contains a zero. -/
theorem Tries.gap_pairwise :
    (gaps none bs).Pairwise fun g g' => found (inGap g) = none ∨ found (inGap g') = none := by
  have hdisjoint : (gaps none bs).Pairwise fun g g' =>
      ∀ p, Between (g.1.map val, g.2.map val) p → ¬ Between (g'.1.map val, g'.2.map val) p := by
    have hd : (gaps none (bs.map val)).Pairwise fun g g' => ∀ p, Between g p → ¬ Between g' p :=
      gaps_disjoint h.sorted
    rw [← Option.map_none, ← gaps_map val none bs] at hd
    exact pairwise_map.mp hd
  refine hdisjoint.imp_of_mem fun {g g'} hg hg' hdis => ?_
  refine none_or_none fun s hs t ht => ?_
  obtain ⟨hzs, hins⟩ := h.found_gap hg hs
  obtain ⟨hzt, hint⟩ := h.found_gap hg' ht
  rw [h.unique _ _ hzt hzs] at hint
  exact hdis _ hins hint

lemma Tries.apart {g : Option ι × Option ι} (hg : g ∈ gaps none bs) {b : ι} (hb : b ∈ bs) :
    found (inGap g) = none ∨ found (atBoundary b) = none := by
  refine none_or_none fun s hs t ht => ?_
  obtain ⟨hzs, hin⟩ := h.found_gap hg hs
  obtain ⟨hzt, hpt⟩ := h.found_boundary hb ht
  rw [h.unique _ _ hzs hzt, hpt] at hin
  exact not_between_of_mem h.sorted (mem_gaps_map val hg) (mem_map_of_mem hb) hin

/-- A search with a zero returns a step at the zero that one of its tries found. -/
theorem Tries.search_ok {p : α} (hp : Z p) :
    ∃ s, search e inGap atBoundary bs = .ok s ∧ place s = p ∧
      ((∃ g ∈ gaps none bs, inGap g = .ok (some s)) ∨ ∃ b ∈ bs, atBoundary b = .ok (some s)) := by
  rw [h.search_eq]
  rcases mem_or_between none (bs.map val) (p := p) (by simp) with hmem | ⟨g, hg, hin⟩
  · obtain ⟨b, hb, rfl⟩ := mem_map.mp hmem
    obtain ⟨r, hr, -, hfound⟩ := h.boundary b hb
    obtain ⟨s, rfl⟩ := Option.ne_none_iff_exists'.mp (hfound hp)
    have hs : found (atBoundary b) = some s := by rw [hr, found]
    have hgaps : (gaps none bs).filterMap (fun g => found (inGap g)) = [] := by
      rw [filterMap_eq_nil_iff]
      intro g hg
      simpa [hs] using h.apart hg hb
    rw [hgaps, filterMap_eq_singleton h.boundary_pairwise hb hs]
    exact ⟨s, rfl, (h.found_boundary hb hs).2, .inr ⟨b, hb, hr⟩⟩
  · rw [← Option.map_none, ← gaps_map val none bs] at hg
    obtain ⟨g', hg', rfl⟩ := mem_map.mp hg
    obtain ⟨r, hr, -, hfound⟩ := h.gap g' hg'
    obtain ⟨s, rfl⟩ := Option.ne_none_iff_exists'.mp (hfound p hin hp)
    have hs : found (inGap g') = some s := by rw [hr, found]
    have hbs : bs.filterMap (fun b => found (atBoundary b)) = [] := by
      rw [filterMap_eq_nil_iff]
      intro b hb
      simpa [hs] using h.apart hg' hb
    rw [hbs, filterMap_eq_singleton h.gap_pairwise hg' hs, append_nil]
    exact ⟨s, rfl, h.unique _ _ (h.found_gap hg' hs).1 hp, .inl ⟨g', hg', hr⟩⟩

/-- A search without a zero fails. -/
theorem Tries.search_error (hz : ∀ p, ¬ Z p) : search e inGap atBoundary bs = .error e := by
  have hgaps : (gaps none bs).filterMap (fun g => found (inGap g)) = [] := by
    refine filterMap_eq_nil_iff.mpr fun g hg => Option.eq_none_iff_forall_not_mem.mpr fun s hs => ?_
    exact hz _ (h.found_gap hg hs).1
  have hbs : bs.filterMap (fun b => found (atBoundary b)) = [] := by
    refine filterMap_eq_nil_iff.mpr fun b hb => Option.eq_none_iff_forall_not_mem.mpr fun s hs => ?_
    exact hz _ (h.found_boundary hb hs).1
  rw [h.search_eq, hgaps, hbs]
  rfl

end Search

end Noid.Lib.Crossing
