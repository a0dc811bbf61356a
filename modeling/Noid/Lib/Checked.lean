import Mathlib.Algebra.Order.BigOperators.Group.Finset
import Mathlib.Tactic.Linarith
import Mathlib.Tactic.Ring

/-! # Checked computations

A guard `if bad { return Err(e) }` is `require good e`; a conversion or an addition that must fit a word is `checked`.  The
lemmas turn an equation `… = .ok r` over a chain of guards into the conjunction of what the guards check. -/

namespace Noid.Lib

open List

variable {ε ε' α β : Type}

/-- Continue when `p` holds, fail with `e` otherwise. -/
def require (p : Prop) [Decidable p] (e : ε) : Except ε Unit := if p then .ok () else .error e

variable {e : ε} {x : Except ε α} {f : α → Except ε β}

@[simp] lemma require_eq_ok {p : Prop} [Decidable p] {u : Unit} :
    require p e = .ok u ↔ p := by
  unfold require
  split_ifs with h <;> simp [h]

lemma require_of {p : Prop} [Decidable p] (e : ε) (h : p) : require p e = .ok () := if_pos h

def orElseThrow (e : ε) : Option α → Except ε α
  | some a => .ok a
  | none => .error e

@[simp] lemma orElseThrow_eq_ok {o : Option α} {a : α} :
    orElseThrow e o = .ok a ↔ o = some a := by
  cases o <;> simp [orElseThrow]

/-- The bound of `u64`. -/
def U64 : ℕ := 2 ^ 64

/-- The largest `u64`. -/
def U64_MAX : ℕ := 2 ^ 64 - 1

/-- A number that must fit a `u64`. -/
def checked (e : ε) (n : ℕ) : Except ε ℕ := if n < U64 then .ok n else .error e

@[simp] lemma checked_eq_ok {n m : ℕ} : checked e n = .ok m ↔ n < U64 ∧ n = m := by
  unfold checked
  split_ifs with h <;> simp [h]

lemma checked_of_lt (e : ε) {n : ℕ} (h : n < U64) : checked e n = .ok n := if_pos h

/-- `checked_sub`. -/
def checkedSub (e : ε) (a b : ℕ) : Except ε ℕ := if b ≤ a then .ok (a - b) else .error e

@[simp] lemma checkedSub_eq_ok {a b m : ℕ} :
    checkedSub e a b = .ok m ↔ b ≤ a ∧ a - b = m := by
  unfold checkedSub
  split_ifs with h <;> simp [h]

/-- An integer that must fit a `u64`. -/
def checkedInt (e : ε) (z : ℤ) : Except ε ℕ := if 0 ≤ z ∧ z < U64 then .ok z.toNat else .error e

@[simp] lemma checkedInt_eq_ok {z : ℤ} {m : ℕ} :
    checkedInt e z = .ok m ↔ m < U64 ∧ z = m := by
  unfold checkedInt
  split_ifs with h
  · simp only [Except.ok.injEq]
    omega
  · simp only [false_iff]
    omega

/-- A sum whose partial sums must fit a `u64`. -/
def checkedSum (e : ε) (l : List ℕ) : Except ε ℕ := l.foldlM (fun acc n => checked e (acc + n)) 0

/-! ### Inversion -/

lemma except_map_bind {γ : Type} (x : Except ε α) (g : α → Except ε β) (f : β → γ) :
    (x >>= g).map f = x >>= fun a => (g a).map f := by cases x <;> rfl

@[simp] lemma bind_eq_ok {b : β} : (x >>= f) = .ok b ↔ ∃ a, x = .ok a ∧ f a = .ok b := by
  cases x with
  | error e => simp [Bind.bind, Except.bind]
  | ok a => simp [Bind.bind, Except.bind]

lemma bind_eq_error : (x >>= f) = .error e ↔ x = .error e ∨ ∃ a, x = .ok a ∧ f a = .error e := by
  cases x with
  | error e' => simp [Bind.bind, Except.bind]
  | ok a => simp [Bind.bind, Except.bind]

lemma require_eq_error {p : Prop} [Decidable p] {e' : ε} : require p e = .error e' ↔ ¬p ∧ e = e' := by
  unfold require
  split_ifs with h <;> simp [h]

lemma pure_eq_error {a : α} : (pure a : Except ε α) = .error e ↔ False := by
  simp [pure, Except.pure]

lemma bind_of_ok {a : α} (h : x = .ok a) : (x >>= f) = f a := by
  rw [h]
  rfl

lemma require_bind {p : Prop} [Decidable p] {f : Unit → Except ε β} (h : p) : (require p e >>= f) = f () :=
  bind_of_ok (require_of e h)

lemma checked_bind {n : ℕ} {f : ℕ → Except ε β} (h : n < U64) : (checked e n >>= f) = f n :=
  bind_of_ok (checked_of_lt e h)

@[simp] lemma pure_eq_ok {a b : α} : (pure a : Except ε α) = .ok b ↔ a = b := by
  simp [pure, Except.pure]

@[simp] lemma mapError_eq_ok {f : ε → ε'} {a : α} :
    x.mapError f = .ok a ↔ x = .ok a := by
  cases x <;> simp [Except.mapError]

/-- The inversion rules of a chain of guards, as one set of rewrites. -/
theorem ok_rules : (∀ {ε α β : Type} {x : Except ε α} {f : α → Except ε β} {b : β},
        (x >>= f) = .ok b ↔ ∃ a, x = .ok a ∧ f a = .ok b) ∧
      (∀ {ε : Type} {e : ε} {p : Prop} [Decidable p] {u : Unit}, require p e = .ok u ↔ p) ∧
      (∀ {p : Prop}, (∃ _ : Unit, p) ↔ p) ∧
      (∀ {ε α : Type} {a b : α}, (pure a : Except ε α) = .ok b ↔ a = b) ∧
      (∀ {ε ε' α : Type} {x : Except ε α} {f : ε → ε'} {a : α}, x.mapError f = .ok a ↔ x = .ok a) ∧
      ∀ {ε α : Type} {e : ε} {o : Option α} {a : α}, orElseThrow e o = .ok a ↔ o = some a :=
  ⟨bind_eq_ok, require_eq_ok, exists_const _, pure_eq_ok, mapError_eq_ok, orElseThrow_eq_ok⟩

lemma mapError_bind {x : Except ε' α} {g : ε' → ε} {a : α} (h : x = .ok a) : (x.mapError g >>= f) = f a :=
  bind_of_ok (mapError_eq_ok.mpr h)

/-- What follows a computation matters only where it succeeds. -/
theorem bind_congr_ok {g : α → Except ε β} (h : ∀ a, x = .ok a → f a = g a) :
    x >>= f = x >>= g := by
  cases x with
  | error e => rfl
  | ok a => exact h a rfl

lemma exists_ok_of_isOk (h : x.isOk = true) : ∃ a, x = .ok a := by
  cases x with
  | error e => simp [Except.isOk, Except.toBool] at h
  | ok a => exact ⟨a, rfl⟩

lemma foldlM_checked (e : ε) :
    ∀ (l : List ℕ) (acc : ℕ), acc + l.sum < U64 → l.foldlM (fun acc n => checked e (acc + n)) acc = .ok (acc + l.sum)
  | [], acc, _ => by simp [pure, Except.pure]
  | n :: l, acc, h => by
    rw [sum_cons] at h
    rw [foldlM_cons, bind_of_ok (checked_of_lt e (show acc + n < U64 by omega)),
      foldlM_checked e l (acc + n) (by omega), sum_cons, Nat.add_assoc]

lemma checkedSum_of_lt (e : ε) {l : List ℕ} (h : l.sum < U64) : checkedSum e l = .ok l.sum := by
  have := foldlM_checked e l 0 (by omega)
  simpa [checkedSum] using this

/-! ### Loops -/

/-- A loop of checks over a list succeeds exactly when every check does. -/
theorem forM_eq_ok {f : α → Except ε Unit} :
    ∀ {l : List α} {u : Unit}, l.forM f = .ok u ↔ ∀ a ∈ l, f a = .ok ()
  | [], u => by simp [List.forM]
  | a :: l, u => by
    rw [forM_eq_forM, forM_cons, bind_eq_ok, forall_mem_cons]
    constructor
    · rintro ⟨⟨⟩, h1, h2⟩
      exact ⟨h1, forM_eq_ok.mp h2⟩
    · rintro ⟨h1, h2⟩
      exact ⟨(), h1, forM_eq_ok.mpr h2⟩

/-- What every step of a loop keeps holds at its end. -/
theorem foldlM_invariant {P : β → Prop} {f : β → α → Except ε β} (hstep : ∀ b a b', P b → f b a = .ok b' → P b') :
    ∀ {l : List α} {b b' : β}, P b → l.foldlM f b = .ok b' → P b'
  | [], b, b', hb, h => by
    cases h
    exact hb
  | a :: l, b, b', hb, h => by
    rw [foldlM_cons, bind_eq_ok] at h
    obtain ⟨b1, h1, h2⟩ := h
    exact foldlM_invariant hstep (hstep b a b1 hb h1) h2

/-- Insert the key of each element into a set: a repeated key fails with `dup`; `before` and `after` are checked on
either side of the insertion. -/
def eachFresh {κ : Type} [DecidableEq κ] (key : α → κ) (dup : ε) (before after : α → Except ε Unit) :
    List κ → List α → Except ε (List κ)
  | seen, [] => .ok seen
  | seen, a :: l => do
    before a
    require (key a ∉ seen) dup
    after a
    eachFresh key dup before after (key a :: seen) l

/-- The loop succeeds exactly when the keys are new and distinct and every check does. -/
theorem eachFresh_eq_ok {κ : Type} [DecidableEq κ] {key : α → κ} {dup : ε} {before after : α → Except ε Unit} :
    ∀ {l : List α} {seen r : List κ}, eachFresh key dup before after seen l = .ok r ↔
      (l.map key).Nodup ∧ (∀ a ∈ l, key a ∉ seen) ∧ (∀ a ∈ l, before a = .ok () ∧ after a = .ok ()) ∧
        r = (l.map key).reverse ++ seen
  | [], seen, r => by simp [eachFresh, eq_comm]
  | a :: l, seen, r => by
    simp only [eachFresh, bind_eq_ok, require_eq_ok, exists_const, eachFresh_eq_ok, mem_cons,
      map_cons, nodup_cons, reverse_cons, append_assoc, singleton_append,
      mem_map, not_exists, not_and, forall_eq_or_imp]
    constructor
    · rintro ⟨⟨⟩, hb, hfresh, ⟨⟩, ha, hnd, hnot, hall, hr⟩
      refine ⟨⟨fun x hx hk => (hnot x hx) (.inl hk), hnd⟩, ⟨hfresh, fun x hx hm => hnot x hx (.inr hm)⟩,
        ⟨⟨hb, ha⟩, hall⟩, hr⟩
    · rintro ⟨⟨hnk, hnd⟩, ⟨hfresh, hnot⟩, ⟨⟨hb, ha⟩, hall⟩, hr⟩
      exact ⟨(), hb, hfresh, (), ha, hnd, fun x hx hk => hk.elim (hnk x hx) (hnot x hx), hall, hr⟩

/-- A loop whose every step succeeds collects the results. -/
theorem mapM_ok {P : α → β → Prop} :
    ∀ {l : List α}, (∀ a ∈ l, ∃ b, f a = .ok b ∧ P a b) → ∃ bs, l.mapM f = .ok bs ∧ Forall₂ P l bs
  | [], _ => ⟨[], rfl, .nil⟩
  | a :: l, h => by
    obtain ⟨b, hb, hab⟩ := h a (by simp)
    obtain ⟨bs, hbs, hall⟩ := mapM_ok fun x hx => h x (mem_cons_of_mem a hx)
    refine ⟨b :: bs, ?_, .cons hab hall⟩
    rw [mapM_cons, bind_of_ok hb, bind_of_ok hbs]
    rfl

/-- A loop that collects results succeeds exactly when every step does. -/
theorem mapM_eq_ok :
    ∀ {l : List α} {bs : List β}, l.mapM f = .ok bs ↔ Forall₂ (fun a b => f a = .ok b) l bs
  | [], bs => by
    constructor
    · intro h
      have : [] = bs := by simpa using h
      exact this ▸ .nil
    · rintro ⟨⟩
      rfl
  | a :: l, bs => by
    constructor
    · intro h
      simp only [mapM_cons, bind_eq_ok, pure_eq_ok] at h
      obtain ⟨b, hb, bs', hbs, rfl⟩ := h
      exact .cons hb (mapM_eq_ok.mp hbs)
    · intro h
      cases h with
      | cons hb hbs =>
        rw [mapM_cons, bind_of_ok hb, bind_of_ok (mapM_eq_ok.mpr hbs)]
        rfl

/-- A loop whose steps all succeed with `g`. -/
theorem mapM_eq_map {g : α → β} {l : List α} (h : ∀ a ∈ l, f a = .ok (g a)) :
    l.mapM f = .ok (l.map g) := by
  induction l with
  | nil => rfl
  | cons a l ih =>
    have hl := ih fun x hx => h x (.tail _ hx)
    rw [mapM_cons, bind_of_ok (h a mem_cons_self), bind_of_ok hl]
    rfl

/-- A loop whose steps compute `g` when they succeed. -/
theorem eq_map_of_mapM {g : α → β} (hg : ∀ a b, f a = .ok b → b = g a) {l : List α}
    {bs : List β} (h : l.mapM f = .ok bs) : bs = l.map g := by
  rw [mapM_eq_ok] at h
  induction h with
  | nil => rfl
  | cons hab _ ih => rw [map_cons, hg _ _ hab, ih]

lemma exists_of_mem_mapM :
    ∀ {l : List α} {bs : List β}, l.mapM f = .ok bs → ∀ b ∈ bs, ∃ a ∈ l, f a = .ok b := by
  intro l bs h b hb
  rw [mapM_eq_ok] at h
  induction h with
  | nil => cases hb
  | cons hab _ ih =>
    rcases mem_cons.mp hb with rfl | hb
    · exact ⟨_, by simp, hab⟩
    · obtain ⟨a, ha, hfa⟩ := ih hb
      exact ⟨a, mem_cons_of_mem _ ha, hfa⟩

/-- What a loop with an index keeps is a sublist. -/
theorem filter_zipIdx_sublist (l : List α) (p : α × ℕ → Bool) : ((l.zipIdx.filter p).map (·.1)).Sublist l := by
  have h : ((l.zipIdx.filter p).map (·.1)).Sublist (l.zipIdx.map (·.1)) := (filter_sublist).map _
  rwa [zipIdx_map_fst] at h

/-! ### The errors of a computation -/

/-- Every error of the computation satisfies `P`. -/
def FailsOnly (P : ε → Prop) (x : Except ε α) : Prop := ∀ e, x = .error e → P e

namespace FailsOnly

variable {P : ε → Prop} {x : Except ε α}

lemma ok {a : α} : FailsOnly P (.ok a) := fun _ h => by cases h

lemma pure {a : α} : FailsOnly P (Pure.pure a : Except ε α) := FailsOnly.ok

lemma error {e : ε} (h : P e) : FailsOnly P (.error e : Except ε α) := fun _ he => by
  cases he
  exact h

lemma bind {f : α → Except ε β} (hx : FailsOnly P x) (hf : ∀ a, x = .ok a → FailsOnly P (f a)) :
    FailsOnly P (x >>= f) := by
  intro e he
  cases x with
  | error e' => exact hx e (by simpa [Bind.bind, Except.bind] using he)
  | ok a => exact hf a rfl e he

/-- A step that succeeds. -/
theorem bind_ok {f : α → Except ε β} {a : α} (hx : x = .ok a) (hf : FailsOnly P (f a)) :
    FailsOnly P (x >>= f) := by
  rwa [bind_of_ok hx]

lemma require {p : Prop} [Decidable p] {e : ε} (h : ¬p → P e) : FailsOnly P (Lib.require p e) := by
  unfold Lib.require
  split_ifs with hp
  · exact FailsOnly.ok
  · exact FailsOnly.error (h hp)

lemma checked {e : ε} {n : ℕ} (h : U64 ≤ n → P e) : FailsOnly P (Lib.checked e n) := by
  unfold Lib.checked
  split_ifs with hn
  · exact FailsOnly.ok
  · exact FailsOnly.error (h (not_lt.mp hn))

lemma checkedSub {e : ε} {a b : ℕ} (h : a < b → P e) : FailsOnly P (Lib.checkedSub e a b) := by
  unfold Lib.checkedSub
  split_ifs with hn
  · exact FailsOnly.ok
  · exact FailsOnly.error (h (not_le.mp hn))

lemma mapError {f : ε → ε'} {Q : ε' → Prop} (h : FailsOnly (fun e => Q (f e)) x) :
    FailsOnly Q (x.mapError f) := by
  cases x with
  | ok a => exact FailsOnly.ok
  | error e => exact FailsOnly.error (h e rfl)

lemma mapM {f : α → Except ε β} : ∀ {l : List α}, (∀ a ∈ l, FailsOnly P (f a)) → FailsOnly P (l.mapM f)
  | [], _ => FailsOnly.ok
  | a :: l, h => by
    rw [mapM_cons]
    refine FailsOnly.bind (h a (by simp)) fun _ _ => ?_
    exact FailsOnly.bind (mapM fun x hx => h x (.tail _ hx)) fun _ _ => FailsOnly.ok

lemma eachFresh {κ : Type} [DecidableEq κ] {key : α → κ} {dup : ε} {before after : α → Except ε Unit}
    (hdup : P dup) (hbefore : ∀ a, FailsOnly P (before a)) (hafter : ∀ a, FailsOnly P (after a)) :
    ∀ {l : List α} {seen : List κ}, FailsOnly P (Lib.eachFresh key dup before after seen l)
  | [], _ => FailsOnly.ok
  | a :: l, _ => by
    refine FailsOnly.bind (hbefore a) fun _ _ => FailsOnly.bind (FailsOnly.require fun _ => hdup) fun _ _ => ?_
    exact FailsOnly.bind (hafter a) fun _ _ => eachFresh hdup hbefore hafter

lemma mono {Q : ε → Prop} (h : FailsOnly P x) (hPQ : ∀ e, P e → Q e) : FailsOnly Q x :=
  fun e he => hPQ e (h e he)

end FailsOnly

end Noid.Lib
