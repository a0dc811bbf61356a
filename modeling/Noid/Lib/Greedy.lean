import Mathlib.Data.List.InsertIdx
import Mathlib.Tactic.Linarith

/-! # Greedy loops over a queue

In every turn the state names the items it prefers; the loop takes the first preferred item of the queue, or the first of
all when none is preferred, and attempts it.  An attempt fills the item and moves the state, or declines it and leaves the
state. -/

namespace Noid.Lib.Greedy

open List

variable {σ ι κ ο ε : Type}

/-- The first item that satisfies `p`, or the first of all, and the others. -/
def pick (p : ι → Bool) (l : List ι) : Option (ι × List ι) :=
  let position := (l.findIdx? p).getD 0
  l[position]?.map fun a => (a, l.eraseIdx position)

structure Loop (σ ι ο ε : Type) where
  prefer : σ → Except ε (ι → Bool)
  attempt : σ → ι → Except ε (Option (ο × σ))

/-- A filled item, with the state it was attempted in. -/
structure Fill (σ ι ο : Type) where
  before : σ
  item : ι
  outcome : ο

/-! ### Picking -/

variable {p : ι → Bool} {l : List ι}

lemma pick_of_first {l1 l2 : List ι} {a : ι} (ha : p a = true)
    (h : ∀ x ∈ l1, p x = false) : pick p (l1 ++ a :: l2) = some (a, l1 ++ l2) := by
  have hnone : l1.findIdx? p = none := by
    rw [findIdx?_eq_none_iff]
    exact h
  have hidx : (l1 ++ a :: l2).findIdx? p = some l1.length := by
    rw [findIdx?_append, hnone, findIdx?_cons]
    simp [ha]
  simp [pick, hidx, eraseIdx_append_of_length_le]

lemma pick_of_none {a : ι} (h : ∀ x ∈ a :: l, p x = false) :
    pick p (a :: l) = some (a, l) := by
  have hidx : (a :: l).findIdx? p = none := by
    rw [findIdx?_eq_none_iff]
    exact h
  simp [pick, hidx]

/-- The picked item: the first preferred one, or the head of a queue without any. -/
theorem pick_eq_some {rest : List ι} {a : ι} (h : pick p l = some (a, rest)) :
    ∃ l1 l2, l = l1 ++ a :: l2 ∧ rest = l1 ++ l2 ∧
      (p a = true ∧ (∀ x ∈ l1, p x = false) ∨ l1 = [] ∧ ∀ x ∈ l, p x = false) := by
  by_cases hp : ∃ x ∈ l, p x = true
  · obtain ⟨l1, b, l2, hsplit⟩ : ∃ l1 b l2, l = l1 ++ b :: l2 ∧ p b = true ∧ ∀ x ∈ l1, p x = false := by
      obtain ⟨i, hi⟩ := Option.isSome_iff_exists.mp (find?_isSome.mpr hp)
      obtain ⟨hpi, as, bs, hl, has⟩ := find?_eq_some_iff_append.mp hi
      exact ⟨as, i, bs, hl, hpi, fun x hx => by simpa using has x hx⟩
    obtain ⟨rfl, hb, hl1⟩ := hsplit
    rw [pick_of_first hb hl1] at h
    cases h
    exact ⟨l1, l2, rfl, rfl, .inl ⟨hb, hl1⟩⟩
  · have hall : ∀ x ∈ l, p x = false := by
      intro x hx
      by_contra hne
      exact hp ⟨x, hx, by simpa using hne⟩
    cases l with
    | nil => simp [pick] at h
    | cons b tail =>
      rw [pick_of_none hall] at h
      obtain ⟨rfl, rfl⟩ : b = a ∧ tail = rest := by simpa using h
      exact ⟨[], tail, rfl, rfl, .inr ⟨rfl, hall⟩⟩

lemma exists_pick (p : ι → Bool) (h : l ≠ []) : ∃ a rest, pick p l = some (a, rest) := by
  by_cases hp : ∃ x ∈ l, p x = true
  · obtain ⟨a, ha⟩ := Option.isSome_iff_exists.mp (find?_isSome.mpr hp)
    obtain ⟨hpa, as, bs, rfl, has⟩ := find?_eq_some_iff_append.mp ha
    exact ⟨a, as ++ bs, pick_of_first hpa fun x hx => by simpa using has x hx⟩
  · obtain ⟨a, tail, rfl⟩ := exists_cons_of_ne_nil h
    refine ⟨a, tail, pick_of_none ?_⟩
    intro x hx
    by_contra hne
    exact hp ⟨x, hx, by simpa using hne⟩

lemma pick_perm {rest : List ι} {a : ι} (h : pick p l = some (a, rest)) :
    l.Perm (a :: rest) := by
  obtain ⟨l1, l2, rfl, rfl, -⟩ := pick_eq_some h
  exact perm_middle

/-- Picking commutes with reading the items. -/
theorem pick_map (f : ι → κ) (p : κ → Bool) (l : List ι) :
    pick p (l.map f) = (pick (p ∘ f) l).map fun x => (f x.1, x.2.map f) := by
  unfold pick
  rw [findIdx?_map]
  simp only [getElem?_map, eraseIdx_map, Option.map_map, Function.comp_def]

/-! ### Runs -/

/-- A complete run over a queue. -/
inductive Loop.Runs (L : Loop σ ι ο ε) : σ → List ι → σ → List (Fill σ ι ο) → List ι → Prop where
  | done (s : σ) : Runs L s [] s [] []
  | fill {s s' t : σ} {l rest declined : List ι} {a : ι} {o : ο} {p : ι → Bool} {fills : List (Fill σ ι ο)} :
      L.prefer s = .ok p → pick p l = some (a, rest) → L.attempt s a = .ok (some (o, s')) →
      Runs L s' rest t fills declined → Runs L s l t (⟨s, a, o⟩ :: fills) declined
  | decline {s t : σ} {l rest declined : List ι} {a : ι} {p : ι → Bool} {fills : List (Fill σ ι ο)} :
      L.prefer s = .ok p → pick p l = some (a, rest) → L.attempt s a = .ok none →
      Runs L s rest t fills declined → Runs L s l t fills (a :: declined)

namespace Loop.Runs

variable {L : Loop σ ι ο ε} {s t : σ} {l declined : List ι} {fills : List (Fill σ ι ο)}

section
variable (h : L.Runs s l t fills declined)
include h

lemma perm : l.Perm (fills.map (·.item) ++ declined) := by
  induction h with
  | done s => exact .refl _
  | fill _ hpick _ _ ih => exact (pick_perm hpick).trans (ih.cons _)
  | decline _ hpick _ _ ih => exact (pick_perm hpick).trans ((ih.cons _).trans perm_middle.symm)

lemma item_mem {f : Fill σ ι ο} (hf : f ∈ fills) : f.item ∈ l :=
  h.perm.mem_iff.mpr (mem_append.mpr (.inl (mem_map_of_mem hf)))

lemma attempt_of_mem {f : Fill σ ι ο} (hf : f ∈ fills) :
    ∃ s', L.attempt f.before f.item = .ok (some (f.outcome, s')) := by
  induction h with
  | done s => cases hf
  | fill _ _ hattempt _ ih =>
    rcases mem_cons.mp hf with rfl | hf
    · exact ⟨_, hattempt⟩
    · exact ih hf
  | decline _ _ _ _ ih => exact ih hf

lemma not_preferred {f : Fill σ ι ο} {done rest : List (Fill σ ι ο)} (hsplit : fills = done ++ f :: rest) :
    ∃ p, L.prefer f.before = .ok p ∧ (p f.item = false → ∀ g ∈ rest, p g.item = false) := by
  induction h generalizing done with
  | done s => simp at hsplit
  | @fill s s' t l tail declined a o p fills hprefer hpick _ hrest ih =>
    cases done with
    | nil =>
      obtain ⟨rfl, rfl⟩ : (⟨s, a, o⟩ : Fill σ ι ο) = f ∧ fills = rest := by simpa using hsplit
      refine ⟨p, hprefer, ?_⟩
      intro hp g hg
      obtain ⟨l1, l2, rfl, rfl, ⟨ha, -⟩ | ⟨-, hall⟩⟩ := pick_eq_some hpick
      · exact absurd ha (by simpa using hp)
      · have hmem := hrest.item_mem hg
        exact hall _ (by simp only [mem_append, mem_cons] at hmem ⊢; tauto)
    | cons d done =>
      obtain ⟨-, hsplit⟩ : (⟨s, a, o⟩ : Fill σ ι ο) = d ∧ fills = done ++ f :: rest := by
        simpa using hsplit
      exact ih hsplit
  | decline _ _ _ _ ih => exact ih hsplit

lemma drop_declined :
    ∃ l', l'.Sublist l ∧ L.Runs s l' t fills [] := by
  induction h with
  | done s => exact ⟨[], .refl _, .done s⟩
  | @fill s s' t l tail declined a o p fills hprefer hpick hattempt hrest ih =>
    obtain ⟨tail', hsub, hruns⟩ := ih
    obtain ⟨l1, l2, rfl, rfl, hchoice⟩ := pick_eq_some hpick
    obtain ⟨r1, r2, rfl, hr1, hr2⟩ := sublist_append_iff.mp hsub
    refine ⟨r1 ++ a :: r2, hr1.append (hr2.cons_cons a), .fill hprefer ?_ hattempt hruns⟩
    -- the item stays the first preferred one, or the head of a queue that prefers nothing
    rcases hchoice with ⟨ha, hfirst⟩ | ⟨rfl, hnone⟩
    · exact pick_of_first ha fun x hx => hfirst x (hr1.subset hx)
    · obtain rfl := sublist_nil.mp hr1
      refine pick_of_none ?_
      intro x hx
      refine hnone x ?_
      rcases mem_cons.mp hx with rfl | hx
      · simp
      · simp [hr2.subset hx]
  | decline _ hpick _ _ ih =>
    obtain ⟨l', hsub, hruns⟩ := ih
    obtain ⟨l1, l2, rfl, rfl, -⟩ := pick_eq_some hpick
    refine ⟨l', hsub.trans ?_, hruns⟩
    exact (List.Sublist.refl l1).append (sublist_cons_self _ _)

/-- What every fill does to a measured state adds up over a run. -/
theorem invariant {P : List (Fill σ ι ο) → σ → Prop} (h0 : P [] s)
    (hstep : ∀ done s a o s', P done s → L.attempt s a = .ok (some (o, s')) → P (done ++ [⟨s, a, o⟩]) s') :
    P fills t := by
  suffices ∀ done, P done s → P (done ++ fills) t by simpa using this [] h0
  clear h0
  induction h with
  | done s =>
    intro done hdone
    simpa using hdone
  | fill _ _ hattempt _ ih =>
    intro done hdone
    simpa using ih _ (hstep _ _ _ _ _ hdone hattempt)
  | decline _ _ _ _ ih => exact ih

lemma always {Inv : σ → Prop} (h0 : Inv s)
    (hstep : ∀ s a o s', Inv s → L.attempt s a = .ok (some (o, s')) → Inv s') :
    (∀ f ∈ fills, Inv f.before) ∧ Inv t := by
  refine h.invariant (P := fun done s => (∀ f ∈ done, Inv f.before) ∧ Inv s) ⟨by simp, h0⟩ ?_
  rintro done s a o s' ⟨hdone, hs⟩ hattempt
  exact ⟨forall_mem_append.mpr ⟨hdone, forall_mem_singleton.mpr hs⟩, hstep s a o s' hs hattempt⟩

lemma trace {γ : Type} (view : σ → γ) (after : ο → γ)
    (hstep : ∀ s a o s', L.attempt s a = .ok (some (o, s')) → view s' = after o) :
    fills.map (fun f => view f.before) ++ [view t] = view s :: fills.map (fun f => after f.outcome) := by
  refine h.invariant (P := fun done x => done.map (fun f => view f.before) ++ [view x] =
    view s :: done.map (fun f => after f.outcome)) rfl ?_
  intro done x a o s' hdone hattempt
  rw [map_append, map_append, hstep x a o s' hattempt, ← cons_append, ← hdone]
  simp

end

end Loop.Runs

/-- A loop whose attempts never fail under an invariant, which may count the items to come, runs through its queue. -/
theorem Loop.exists_runs {L : Loop σ ι ο ε} {Inv : ℕ → σ → Prop} {Item : ι → Prop}
    (hprefer : ∀ n s, Inv n s → ∃ p, L.prefer s = .ok p)
    (hattempt : ∀ n s a, Inv (n + 1) s → Item a → ∃ r, L.attempt s a = .ok r ∧ Inv n (r.elim s Prod.snd)) :
    ∀ (l : List ι) (s : σ), Inv l.length s → (∀ a ∈ l, Item a) →
      ∃ t fills declined, L.Runs s l t fills declined ∧ Inv 0 t := by
  intro l
  induction hn : l.length generalizing l with
  | zero =>
    intro s hinv _
    obtain rfl := length_eq_zero_iff.mp hn
    exact ⟨s, [], [], .done s, hinv⟩
  | succ n ih =>
    intro s hinv hitems
    obtain ⟨p, hp⟩ := hprefer _ s hinv
    obtain ⟨a, rest, hpick⟩ := exists_pick p (ne_nil_of_length_eq_add_one hn)
    have hperm := pick_perm hpick
    obtain ⟨r, hr, hnext⟩ := hattempt n s a hinv (hitems a (hperm.mem_iff.mpr (by simp)))
    have hlen : rest.length = n := by
      have := hperm.length_eq
      rw [hn, length_cons] at this
      omega
    have hrest : ∀ x ∈ rest, Item x := fun x hx => hitems x (hperm.mem_iff.mpr (.tail _ hx))
    cases r with
    | none =>
      obtain ⟨t, fills, declined, hruns, hend⟩ := ih rest hlen s hnext hrest
      exact ⟨t, fills, a :: declined, .decline hp hpick hr hruns, hend⟩
    | some x =>
      obtain ⟨t, fills, declined, hruns, hend⟩ := ih rest hlen x.2 hnext hrest
      exact ⟨t, ⟨s, a, x.1⟩ :: fills, declined, .fill hp hpick hr hruns, hend⟩

/-! ### Reading items -/

/-- The loop that reads its items through `f`. -/
def Loop.comap (L : Loop σ κ ο ε) (f : ι → κ) : Loop σ ι ο ε where
  prefer s := (L.prefer s).map (· ∘ f)
  attempt s a := L.attempt s (f a)

/-- A fill whose item is read through `f`. -/
def Fill.map (f : ι → κ) (x : Fill σ ι ο) : Fill σ κ ο := ⟨x.before, f x.item, x.outcome⟩

variable {L : Loop σ κ ο ε} {f : ι → κ} {s t : σ}

lemma Loop.prefer_comap (h : (L.comap f).prefer s = .ok p) :
    ∃ q, L.prefer s = .ok q ∧ p = q ∘ f := by
  cases hp : L.prefer s with
  | error e => simp [comap, hp, Except.map] at h
  | ok q =>
    have hq : q ∘ f = p := by simpa [comap, hp, Except.map] using h
    exact ⟨q, rfl, hq.symm⟩

lemma Loop.Runs.map {declined : List ι} {fills : List (Fill σ ι ο)} (h : (L.comap f).Runs s l t fills declined) :
    L.Runs s (l.map f) t (fills.map (Fill.map f)) (declined.map f) := by
  induction h with
  | done s => exact .done s
  | fill hprefer hpick hattempt _ ih =>
    obtain ⟨q, hq, rfl⟩ := prefer_comap hprefer
    exact .fill hq (by rw [pick_map, hpick]; rfl) hattempt ih
  | decline hprefer hpick hattempt _ ih =>
    obtain ⟨q, hq, rfl⟩ := prefer_comap hprefer
    exact .decline hq (by rw [pick_map, hpick]; rfl) hattempt ih

/-- A run over what is read of the items is a run over the items. -/
theorem Loop.Runs.of_map {l' declined' : List κ} {fills' : List (Fill σ κ ο)} (h : L.Runs s l' t fills' declined') :
    ∀ {l : List ι}, l' = l.map f → ∃ fills declined, (L.comap f).Runs s l t fills declined ∧
      fills' = fills.map (Fill.map f) ∧ declined' = declined.map f := by
  induction h with
  | done s =>
    intro l hl
    obtain rfl := map_eq_nil_iff.mp hl.symm
    exact ⟨[], [], .done s, rfl, rfl⟩
  | @fill s s' t l' rest' declined' a' o q fills' hprefer hpick hattempt _ ih =>
    rintro l rfl
    rw [pick_map, Option.map_eq_some_iff] at hpick
    obtain ⟨⟨a, rest⟩, hpick, heq⟩ := hpick
    obtain ⟨rfl, rfl⟩ : f a = a' ∧ rest.map f = rest' := by simpa using heq
    obtain ⟨fills, declined, hruns, rfl, rfl⟩ := ih rfl
    refine ⟨⟨s, a, o⟩ :: fills, declined, .fill (p := q ∘ f) ?_ hpick hattempt hruns, rfl, rfl⟩
    simp [comap, hprefer, Except.map]
  | @decline s t l' rest' declined' a' q fills' hprefer hpick hattempt _ ih =>
    rintro l rfl
    rw [pick_map, Option.map_eq_some_iff] at hpick
    obtain ⟨⟨a, rest⟩, hpick, heq⟩ := hpick
    obtain ⟨rfl, rfl⟩ : f a = a' ∧ rest.map f = rest' := by simpa using heq
    obtain ⟨fills, declined, hruns, rfl, rfl⟩ := ih rfl
    refine ⟨fills, a :: declined, .decline (p := q ∘ f) ?_ hpick hattempt hruns, rfl, rfl⟩
    simp [comap, hprefer, Except.map]

end Noid.Lib.Greedy
