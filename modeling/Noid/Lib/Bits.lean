import Mathlib.Data.Nat.Bitwise
import Mathlib.Data.Nat.Digits.Defs
import Mathlib.Data.Vector.Defs

/-! # Bit masks and padded arrays

A mask is the number whose binary digits are its bits.  `padTo` is an array of fixed size that begins with a list and is
filled up with a dummy; a list whose live entries come first is determined by them and its length. -/

namespace Noid.Lib

open List hiding Vector

/-! ### Masks -/

def setBit (mask bit : ℕ) (value : Bool) : ℕ := if value then mask ||| 2 ^ bit else mask

def setBits (mask start : ℕ) (flags : List Bool) : ℕ :=
  (flags.zipIdx start).foldl (fun mask e => setBit mask e.2 e.1) mask

lemma testBit_setBit (mask bit : ℕ) (value : Bool) (k : ℕ) :
    (setBit mask bit value).testBit k = (mask.testBit k || (value && decide (k = bit))) := by
  cases value with
  | false => simp [setBit]
  | true => simp [setBit, Nat.testBit_or, Nat.testBit_two_pow, eq_comm]

lemma testBit_setBits : ∀ (flags : List Bool) (mask start k : ℕ), (setBits mask start flags).testBit k =
      (mask.testBit k || (decide (start ≤ k) && (flags[k - start]?).getD false))
  | [], mask, start, k => by simp [setBits]
  | b :: flags, mask, start, k => by
    have ih := testBit_setBits flags (setBit mask start b) (start + 1) k
    unfold setBits at ih ⊢
    rw [zipIdx_cons, foldl_cons, ih, testBit_setBit, Bool.or_assoc]
    congr 1
    rcases lt_trichotomy k start with h | h | h
    · simp [h.ne, Nat.not_le.mpr h, show ¬start + 1 ≤ k by omega]
    · subst h
      simp
    · have hk : k - start = k - (start + 1) + 1 := by omega
      rw [hk, getElem?_cons_succ]
      simp [h.ne', h.le, Nat.succ_le_of_lt h]

lemma ofDigits_cut (B : ℕ) : ∀ n m : ℕ, Nat.ofDigits B ((range n).map fun i => m / B ^ i % B) = m % B ^ n
  | 0, m => by simp [Nat.mod_one]
  | n + 1, m => by
    have ih := ofDigits_cut B n (m / B)
    rw [range_succ_eq_map, map_cons, map_map, Nat.ofDigits_cons, pow_succ', Nat.mod_mul, ← ih]
    simp [Function.comp_def, Nat.div_div_eq_div_mul, pow_succ']

/-! ### Padded arrays -/

section
variable {α : Type}

/-- An array that begins with a list and continues with a dummy. -/
def padTo (n : ℕ) (dummy : α) (l : List α) : Vector α n := Vector.ofFn fun i => l.getD i.val dummy

lemma padTo_nil (n : ℕ) (dummy : α) : padTo n dummy [] = Vector.replicate n dummy := by
  apply Vector.ext
  intro i hi
  simp [padTo]

lemma toList_padTo {n : ℕ} {dummy : α} {l : List α} (h : l.length ≤ n) :
    (padTo n dummy l).toList = l ++ replicate (n - l.length) dummy := by
  apply ext_getElem
  · simp
    omega
  · intro i h1 h2
    simp only [padTo, getElem_append, getElem_replicate]
    split_ifs with hl
    · simp [hl]
    · simp [Nat.not_lt.mp hl]

lemma live_padTo {n : ℕ} {dummy : α} {l : List α} (h : l.length ≤ n) {live : ℕ → Bool}
    (hlive : ∀ i < n, live i = decide (i < l.length)) :
    ((padTo n dummy l).toList.zipIdx.filter fun e => live e.2).map Prod.fst = l := by
  have hzip : (l ++ replicate (n - l.length) dummy).zipIdx =
      l.zipIdx ++ (replicate (n - l.length) dummy).zipIdx l.length := by
    rw [zipIdx_append, Nat.zero_add]
  rw [toList_padTo h, hzip, filter_append, filter_eq_self.mpr, filter_eq_nil_iff.mpr]
  · simp
  · rintro ⟨x, i⟩ he
    have hi := mem_zipIdx he
    simp only [length_replicate] at hi
    simp [hlive i (by omega), hi.1]
  · rintro ⟨x, i⟩ he
    have hi := mem_zipIdx he
    simp only [Nat.zero_add] at hi
    rw [hlive i (by omega)]
    exact decide_eq_true hi.2.1

lemma dead_padTo {n : ℕ} {dummy : α} {l : List α} {e : α × ℕ} (he : e ∈ (padTo n dummy l).toList.zipIdx)
    (h : l.length ≤ e.2) : e.1 = dummy := by
  have hget := mem_zipIdx_iff_getElem?.mp he
  obtain ⟨hi, hx⟩ := List.getElem?_eq_some_iff.mp hget
  rw [Vector.getElem_toList] at hx
  simp only [padTo, Vector.getElem_ofFn, getD_eq_getElem?_getD, List.getElem?_eq_none h] at hx
  exact hx.symm

lemma padTo_set {n : ℕ} {dummy : α} {l : List α} {x : α} :
    (padTo n dummy l).setIfInBounds l.length x = padTo n dummy (l ++ [x]) := by
  apply Vector.ext
  intro i hi
  rw [Vector.getElem_setIfInBounds]
  simp only [padTo, Vector.getElem_ofFn, getD_eq_getElem?_getD]
  split_ifs with heq
  · subst heq
    simp
  · rcases Nat.lt_or_gt_of_ne heq with hlt | hlt
    · have hle : (l ++ [x]).length ≤ i := by
        rw [length_append, length_singleton]
        omega
      rw [getElem?_eq_none hlt.le, getElem?_eq_none hle]
    · rw [getElem?_append_left hlt]

end

/-! ### Dense lists -/

section
variable {α β : Type}

/-- No flag is up after one that is down. -/
def Dense (flags : List Bool) : Prop := flags.Pairwise fun a b => b = true → a = true

lemma Dense.tail_down {flags : List Bool} (h : Dense (false :: flags)) : ∀ b ∈ flags, b = false := by
  intro b hb
  have hdown := (pairwise_cons.mp h).1 b hb
  cases b with
  | false => rfl
  | true => cases hdown rfl

lemma eq_of_dense {dummy : α} {l l' : List (α × Bool)} (hl : Dense (l.map Prod.snd)) (hl' : Dense (l'.map Prod.snd))
    (hdead : ∀ e ∈ l, e.2 = false → e.1 = dummy) (hdead' : ∀ e ∈ l', e.2 = false → e.1 = dummy)
    (hlen : l.length = l'.length) (hlive : (l.filter Prod.snd).map Prod.fst = (l'.filter Prod.snd).map Prod.fst) :
    l = l' := by
  induction l generalizing l' with
  | nil => exact (eq_nil_of_length_eq_zero hlen.symm).symm
  | cons e l ih =>
    obtain ⟨e', l', rfl⟩ := exists_cons_of_length_eq_add_one hlen.symm
    obtain ⟨a, up⟩ := e
    obtain ⟨a', up'⟩ := e'
    have hrest := hl.of_cons
    have hrest' := hl'.of_cons
    have hd := fun e he => hdead e (.tail _ he)
    have hd' := fun e he => hdead' e (.tail _ he)
    -- a list that starts with a dead entry has no live one
    have hnone : ∀ {a : α} {l : List (α × Bool)}, Dense (((a, false) :: l).map Prod.snd) → l.filter Prod.snd = [] := by
      intro a l h
      refine filter_eq_nil_iff.mpr fun e he => ?_
      rw [h.tail_down e.2 (mem_map_of_mem he)]
      exact Bool.false_ne_true
    cases up with
    | false =>
      cases up' with
      | false =>
        have ha : a = dummy := hdead _ mem_cons_self rfl
        have ha' : a' = dummy := hdead' _ mem_cons_self rfl
        rw [ha, ha', ih hrest hrest' hd hd' (Nat.succ.inj hlen) hlive]
      | true =>
        rw [filter_cons_of_neg Bool.false_ne_true, hnone hl, filter_cons_of_pos rfl] at hlive
        cases hlive
    | true =>
      cases up' with
      | false =>
        rw [filter_cons_of_pos rfl, filter_cons_of_neg Bool.false_ne_true, hnone hl'] at hlive
        cases hlive
      | true =>
        obtain ⟨ha, htail⟩ := cons.inj hlive
        rw [ih hrest hrest' hd hd' (Nat.succ.inj hlen) htail, show a = a' from ha]

/-- Blocks of one length are determined by what they join to. -/
theorem map_eq_of_flatMap {f : α → List β} {n : ℕ} (hf : ∀ a, (f a).length = n) {l l' : List α}
    (hlen : l.length = l'.length) (h : l.flatMap f = l'.flatMap f) : l.map f = l'.map f := by
  induction l generalizing l' with
  | nil => rw [eq_nil_of_length_eq_zero hlen.symm]
  | cons a l ih =>
    obtain ⟨a', l', rfl⟩ := exists_cons_of_length_eq_add_one hlen.symm
    obtain ⟨hhead, htail⟩ := append_inj h ((hf a).trans (hf a').symm)
    rw [map_cons, map_cons, hhead, ih (Nat.succ.inj hlen) htail]

end

/-! ### Packed fields -/

/-- Setting bits above a number adds them. -/
theorem or_shiftLeft_of_lt {a b k : ℕ} (h : a < 2 ^ k) : a ||| b <<< k = a + 2 ^ k * b := by
  rw [Nat.or_comm, ← Nat.shiftLeft_add_eq_or_of_lt h, Nat.shiftLeft_eq, Nat.mul_comm, Nat.add_comm]

/-- A field of `w` bits at bit `k`. -/
theorem shiftRight_and_mask (n k w : ℕ) : n >>> k &&& (2 ^ w - 1) = n / 2 ^ k % 2 ^ w := by
  rw [Nat.and_two_pow_sub_one_eq_mod, Nat.shiftRight_eq_div_pow]

/-- A loop over an array with its indices. -/
theorem forall_mem_zipIdx {α : Type} {n : ℕ} {v : Vector α n} {P : α × ℕ → Prop} :
    (∀ e ∈ v.toList.zipIdx, P e) ↔ ∀ (i : ℕ) (h : i < n), P (v[i], i) := by
  constructor
  · intro h i hi
    refine h _ (mk_mem_zipIdx_iff_getElem?.mpr ?_)
    rw [List.getElem?_eq_getElem (by simpa using hi), Vector.getElem_toList]
  · rintro h ⟨a, i⟩ he
    obtain ⟨hi, rfl⟩ := List.getElem?_eq_some_iff.mp (mk_mem_zipIdx_iff_getElem?.mp he)
    exact h i (by simpa using hi)

end Noid.Lib
