import Mathlib.Algebra.Order.BigOperators.Group.Finset
import Mathlib.Data.List.Sort
import Mathlib.Tactic.Linarith

/-! # Ordered maps

A finite map is kept as its entries in strictly increasing key order; the order is a field, so iterating over the entries
is iterating over the map.  The accounting lemmas are about the sum of a weight over the entries. -/

namespace Noid.Lib

open List

/-- A finite map as its entries in strictly increasing key order. -/
structure SortedMap (κ V : Type) [LinearOrder κ] where
  entries : List (κ × V)
  sorted : entries.Pairwise fun a b => a.1 < b.1

namespace SortedMap

variable {κ V : Type} [LinearOrder κ]

instance [DecidableEq V] : DecidableEq (SortedMap κ V) := fun a b =>
  decidable_of_iff (a.entries = b.entries) (by cases a; cases b; simp)

def empty : SortedMap κ V := ⟨[], .nil⟩

instance : Inhabited (SortedMap κ V) := ⟨empty⟩

@[simp] lemma empty_entries : (empty : SortedMap κ V).entries = [] := rfl

/-- The value at a key. -/
def lookup (m : SortedMap κ V) (k : κ) : Option V := (m.entries.find? (·.1 = k)).map Prod.snd

def insertEntry (k : κ) (v : V) : List (κ × V) → List (κ × V)
  | [] => [(k, v)]
  | e :: l =>
    if k < e.1 then (k, v) :: e :: l
    else if k = e.1 then (k, v) :: l
    else e :: insertEntry k v l

variable {k : κ} {v : V} {l : List (κ × V)} {m : SortedMap κ V}

lemma mem_insertEntry {e : κ × V} :
    ∀ {l : List (κ × V)}, e ∈ insertEntry k v l → e = (k, v) ∨ e ∈ l
  | [], h => by simpa [insertEntry] using h
  | a :: l, h => by
    unfold insertEntry at h
    split_ifs at h with h1 h2
    · simpa using h
    · exact (mem_cons.mp h).imp_right (.tail _)
    · rcases mem_cons.mp h with rfl | h
      · exact .inr mem_cons_self
      · exact (mem_insertEntry h).imp_right (.tail _)

lemma insertEntry_sorted (k : κ) (v : V) :
    ∀ {l : List (κ × V)}, (l.Pairwise fun a b => a.1 < b.1) → (insertEntry k v l).Pairwise fun a b => a.1 < b.1
  | [], _ => by simp [insertEntry]
  | e :: l, h => by
    obtain ⟨h1, h2⟩ := pairwise_cons.mp h
    unfold insertEntry
    split_ifs with hlt heq
    · exact pairwise_cons.mpr ⟨forall_mem_cons.mpr ⟨hlt, fun a ha => hlt.trans (h1 a ha)⟩, h⟩
    · subst heq
      exact pairwise_cons.mpr ⟨h1, h2⟩
    · refine pairwise_cons.mpr ⟨?_, insertEntry_sorted k v h2⟩
      intro a ha
      rcases mem_insertEntry ha with rfl | ha
      · exact lt_of_le_of_ne (not_lt.mp hlt) (Ne.symm heq)
      · exact h1 a ha

/-- Put `v` at `k`. -/
def insert (m : SortedMap κ V) (k : κ) (v : V) : SortedMap κ V :=
  ⟨insertEntry k v m.entries, insertEntry_sorted k v m.sorted⟩

/-- Insert the entries of a list, later ones replacing earlier ones. -/
def ofList (l : List (κ × V)) : SortedMap κ V := l.foldl (fun m e => m.insert e.1 e.2) empty

def values (m : SortedMap κ V) : List V := m.entries.map Prod.snd

/-- The sum of a weight over the entries. -/
def total (w : κ → V → ℕ) (m : SortedMap κ V) : ℕ := (m.entries.map fun e => w e.1 e.2).sum

@[simp] lemma total_empty (w : κ → V → ℕ) : total w (empty : SortedMap κ V) = 0 := rfl

lemma find?_eq_none_of_lt (h : ∀ e ∈ l, k < e.1) :
    l.find? (·.1 = k) = none := by
  rw [find?_eq_none]
  intro e he hk
  exact absurd (of_decide_eq_true hk) (h e he).ne'

lemma sum_insertEntry (w : κ → V → ℕ) (k : κ) (v : V) :
    ∀ {l : List (κ × V)}, (l.Pairwise fun a b => a.1 < b.1) → ((insertEntry k v l).map fun e => w e.1 e.2).sum +
          ((l.find? (·.1 = k)).elim 0 fun e => w k e.2) =
        (l.map fun e => w e.1 e.2).sum + w k v
  | [], _ => by simp [insertEntry]
  | e :: l, h => by
    obtain ⟨h1, h2⟩ := pairwise_cons.mp h
    unfold insertEntry
    split_ifs with hlt heq
    · have hnone : (e :: l).find? (·.1 = k) = none :=
        find?_eq_none_of_lt (forall_mem_cons.mpr ⟨hlt, fun a ha => hlt.trans (h1 a ha)⟩)
      rw [hnone]
      simp
      omega
    · subst heq
      simp
      omega
    · have := sum_insertEntry w k v h2
      rw [find?_cons_of_neg (by simpa using Ne.symm heq), map_cons, map_cons, sum_cons, sum_cons]
      omega

lemma total_insert (w : κ → V → ℕ) (m : SortedMap κ V) (k : κ) (v : V) :
    total w (m.insert k v) + (m.lookup k).elim 0 (w k) = total w m + w k v := by
  have h := sum_insertEntry w k v m.sorted
  unfold total insert lookup
  cases hf : m.entries.find? (·.1 = k) <;> simpa [hf] using h

/-- The amount at a key: none counts as zero. -/
def amount (k : κ) (m : SortedMap κ ℕ) : ℕ := total (fun k' n => if k' = k then n else 0) m

@[simp] lemma amount_empty (k : κ) : amount k (empty : SortedMap κ ℕ) = 0 := rfl

/-- Add to the amount at a key. -/
def bump (m : SortedMap κ ℕ) (k : κ) (n : ℕ) : SortedMap κ ℕ := m.insert k ((m.lookup k).getD 0 + n)

lemma mem_bump {m : SortedMap κ ℕ} {n : ℕ} {e : κ × ℕ} (h : e ∈ (m.bump k n).entries) :
    e.1 = k ∨ e ∈ m.entries := by
  rcases mem_insertEntry h with rfl | h
  · exact .inl rfl
  · exact .inr h

lemma total_insert_add (p : κ → Prop) [DecidablePred p] (m : SortedMap κ ℕ) (k : κ) (n : ℕ) :
    total (fun k n => if p k then n else 0) (m.insert k ((m.lookup k).getD 0 + n)) =
      total (fun k n => if p k then n else 0) m + if p k then n else 0 := by
  have h := total_insert (fun k n => if p k then n else 0) m k ((m.lookup k).getD 0 + n)
  cases hl : m.lookup k with
  | none =>
    rw [hl] at h
    simpa using h
  | some v =>
    rw [hl] at h
    simp only [Option.elim_some, Option.getD_some] at h ⊢
    split_ifs at h ⊢ <;> omega

lemma mem_of_sum_pos : ∀ {l : List (κ × ℕ)}, (l.Pairwise fun a b => a.1 < b.1) →
    0 < (l.map fun e => if e.1 = k then e.2 else 0).sum →
    (k, (l.map fun e => if e.1 = k then e.2 else 0).sum) ∈ l
  | [], _, h => by simp at h
  | e :: l, hsorted, h => by
    obtain ⟨hlt, hrest⟩ := pairwise_cons.mp hsorted
    rw [map_cons, sum_cons] at h ⊢
    by_cases hk : e.1 = k
    · have hzero : (l.map fun e => if e.1 = k then e.2 else 0).sum = 0 := by
        refine sum_eq_zero ?_
        intro n hn
        obtain ⟨a, ha, rfl⟩ := mem_map.mp hn
        exact if_neg fun hak => (hlt a ha).ne (hk.trans hak.symm)
      rw [hzero, if_pos hk, Nat.add_zero, ← hk]
      exact mem_cons_self
    · rw [if_neg hk, Nat.zero_add] at h ⊢
      exact mem_cons_of_mem _ (mem_of_sum_pos hrest h)

lemma mem_of_amount_pos {m : SortedMap κ ℕ} (h : 0 < amount k m) : (k, amount k m) ∈ m.entries :=
  mem_of_sum_pos m.sorted h

lemma lookup_eq_none :
    m.lookup k = none ↔ k ∉ m.entries.map Prod.fst := by
  simp only [lookup, Option.map_eq_none_iff, find?_eq_none, mem_map]
  exact ⟨fun h ⟨e, he, hk⟩ => h e he (by simpa using hk), fun h e he hk => h ⟨e, he, by simpa using hk⟩⟩

lemma insertEntry_perm :
    ∀ {l : List (κ × V)}, k ∉ l.map Prod.fst → (insertEntry k v l).Perm ((k, v) :: l)
  | [], _ => by simp [insertEntry]
  | e :: l, h => by
    simp only [map_cons, mem_cons, not_or] at h
    unfold insertEntry
    split_ifs with hlt heq
    · exact .refl _
    · exact absurd heq h.1
    · exact ((insertEntry_perm h.2).cons e).trans (.swap _ _ _)

/-! ### Lookups -/

def keys (m : SortedMap κ V) : List κ := m.entries.map Prod.fst

lemma keys_nodup (m : SortedMap κ V) : m.keys.Nodup := pairwise_map.mpr (m.sorted.imp ne_of_lt)

lemma mem_of_find?_key (h : (l.find? (·.1 = k)).map Prod.snd = some v) : (k, v) ∈ l := by
  obtain ⟨e, he, rfl⟩ := Option.map_eq_some_iff.mp h
  have hk : e.1 = k := by simpa using find?_some he
  rw [← hk]
  exact mem_of_find?_eq_some he

lemma lookup_eq_some : m.lookup k = some v ↔ (k, v) ∈ m.entries := by
  refine ⟨mem_of_find?_key, fun h => ?_⟩
  cases hl : m.lookup k with
  | none => exact absurd (mem_map.mpr ⟨_, h, rfl⟩) (lookup_eq_none.mp hl)
  | some w => cases inj_on_of_nodup_map m.keys_nodup (mem_of_find?_key hl) h rfl; rfl

lemma mem_keys : k ∈ m.keys ↔ ∃ v, m.lookup k = some v := by
  simp only [keys, mem_map, Prod.exists, exists_and_right, exists_eq_right, lookup_eq_some]

lemma mem_values : v ∈ m.values ↔ ∃ k, m.lookup k = some v := by
  simp only [values, mem_map, Prod.exists, exists_eq_right, lookup_eq_some]

@[simp] lemma lookup_empty (k : κ) : (empty : SortedMap κ V).lookup k = none := rfl

@[simp] lemma length_values (m : SortedMap κ V) : m.values.length = m.keys.length := by
  simp [values, keys]

lemma eq_of_perm {m' : SortedMap κ V} (h : m.entries.Perm m'.entries) : m = m' := by
  have hentries := h.eq_of_pairwise (fun a b _ _ hab hba => absurd hab hba.asymm) m.sorted m'.sorted
  cases m
  cases m'
  simpa using hentries

lemma ext_lookup {m' : SortedMap κ V} (h : ∀ k, m.lookup k = m'.lookup k) : m = m' := by
  have hnodup : ∀ n : SortedMap κ V, n.entries.Nodup := fun n => List.Nodup.of_map _ n.keys_nodup
  refine eq_of_perm ((perm_ext_iff_of_nodup (hnodup m) (hnodup m')).mpr ?_)
  rintro ⟨k, v⟩
  rw [← lookup_eq_some, ← lookup_eq_some, h]

lemma find?_insertEntry (k k' : κ) (v : V) :
    ∀ {l : List (κ × V)}, (l.Pairwise fun a b => a.1 < b.1) →
      (insertEntry k v l).find? (·.1 = k') = if k' = k then some (k, v) else l.find? (·.1 = k')
  | [], _ => by
    by_cases hk : k' = k <;> simp [insertEntry, hk, eq_comm]
  | e :: l, h => by
    obtain ⟨-, hrest⟩ := pairwise_cons.mp h
    have ih := find?_insertEntry k k' v hrest
    unfold insertEntry
    by_cases hk : k' = k
    · subst hk
      rw [if_pos rfl] at ih ⊢
      split_ifs with h1 h2
      · simp
      · simp
      · rw [find?_cons_of_neg (by simpa using Ne.symm h2), ih]
    · rw [if_neg hk] at ih ⊢
      split_ifs with h1 h2
      · rw [find?_cons_of_neg (by simpa using Ne.symm hk)]
      · rw [find?_cons_of_neg (by simpa using Ne.symm hk),
          find?_cons_of_neg (by simpa [← h2] using Ne.symm hk)]
      · rw [find?_cons, find?_cons, ih]

lemma lookup_insert (m : SortedMap κ V) (k k' : κ) (v : V) :
    (m.insert k v).lookup k' = if k' = k then some v else m.lookup k' := by
  unfold lookup insert
  rw [find?_insertEntry k k' v m.sorted]
  split_ifs <;> rfl

/-- Over the same value, if any, an insertion adds one entry. -/
theorem lookup_insert_of_same (h : ∀ old, m.lookup k = some old → old = v) {k' : κ} {w : V} :
    (m.insert k v).lookup k' = some w ↔ (k' = k ∧ w = v) ∨ m.lookup k' = some w := by
  rw [lookup_insert]
  split_ifs with hk
  · subst hk
    rw [Option.some.injEq, eq_comm]
    exact ⟨fun hw => .inl ⟨rfl, hw⟩, fun hw => hw.elim And.right (h w)⟩
  · simp [hk]

/-- The value at a key is the last one inserted there. -/
theorem lookup_ofList (l : List (κ × V)) (k : κ) :
    (ofList l).lookup k = (l.reverse.find? (·.1 = k)).map Prod.snd := by
  induction l using reverseRecOn with
  | nil => rfl
  | append_singleton l e ih =>
    rw [ofList, foldl_append, foldl_cons, foldl_nil, lookup_insert, reverse_append]
    unfold ofList at ih
    rw [ih, reverse_singleton, singleton_append, find?_cons]
    by_cases hk : k = e.1 <;> simp [hk, eq_comm]

lemma mem_keys_ofList : k ∈ (ofList l).keys ↔ k ∈ l.map Prod.fst := by
  rw [← not_iff_not]
  refine lookup_eq_none.symm.trans ?_
  simp only [lookup_ofList, Option.map_eq_none_iff, find?_eq_none, mem_reverse, mem_map]
  exact ⟨fun h ⟨e, he, hk⟩ => h e he (by simpa using hk), fun h e he hk => h ⟨e, he, by simpa using hk⟩⟩

/-- When a key has one value in a list, that is the value at the key. -/
theorem lookup_ofList_eq_some (h : ∀ a ∈ l, ∀ b ∈ l, a.1 = b.1 → a.2 = b.2) :
    (ofList l).lookup k = some v ↔ (k, v) ∈ l := by
  have hmem : ∀ {w}, (ofList l).lookup k = some w → (k, w) ∈ l := fun hw =>
    mem_reverse.mp (mem_of_find?_key (lookup_ofList l k ▸ hw))
  refine ⟨hmem, fun hv => ?_⟩
  obtain ⟨w, hw⟩ := mem_keys.mp (mem_keys_ofList.mpr (mem_map.mpr ⟨_, hv, rfl⟩))
  exact hw.trans (congrArg some (h _ (hmem hw) _ hv rfl))

/-! ### Entries in order -/

lemma insertEntry_of_lt :
    ∀ {l : List (κ × V)}, (∀ e ∈ l, e.1 < k) → insertEntry k v l = l ++ [(k, v)]
  | [], _ => rfl
  | e :: l, h => by
    have he := h e mem_cons_self
    rw [insertEntry, if_neg he.asymm, if_neg he.ne', insertEntry_of_lt fun e he => h e (.tail _ he)]
    rfl

lemma insert_entries_of_lt (h : ∀ k' ∈ m.keys, k' < k) : (m.insert k v).entries = m.entries ++ [(k, v)] :=
  insertEntry_of_lt fun e he => h e.1 (mem_map_of_mem he)

lemma keys_insert_of_lt (h : ∀ k' ∈ m.keys, k' < k) : (m.insert k v).keys = m.keys ++ [k] := by
  rw [keys, insert_entries_of_lt h, map_append]
  rfl

lemma ofList_entries (h : l.Pairwise fun a b => a.1 < b.1) : (ofList l).entries = l := by
  induction l using reverseRecOn with
  | nil => rfl
  | append_singleton l e ih =>
    obtain ⟨hl, -, hlt⟩ := pairwise_append.mp h
    rw [ofList, foldl_append, foldl_cons, foldl_nil]
    change ((ofList l).insert e.1 e.2).entries = _
    rw [insert_entries_of_lt, ih hl]
    intro k hk
    rw [keys, ih hl] at hk
    obtain ⟨e', he', rfl⟩ := mem_map.mp hk
    exact hlt e' he' e (by simp)

/-! ### Removal -/

def filterKeys (p : κ → Bool) (m : SortedMap κ V) : SortedMap κ V := ⟨m.entries.filter fun e => p e.1, m.sorted.filter _⟩

/-- The map without a key. -/
def erase (m : SortedMap κ V) (k : κ) : SortedMap κ V := m.filterKeys fun k' => decide (k' ≠ k)

lemma lookup_filterKeys_eq_some {p : κ → Bool} :
    (m.filterKeys p).lookup k = some v ↔ m.lookup k = some v ∧ p k = true := by
  rw [lookup_eq_some, lookup_eq_some, filterKeys, mem_filter]

lemma lookup_erase_eq_some {k' : κ} : (m.erase k).lookup k' = some v ↔ m.lookup k' = some v ∧ k' ≠ k := by
  rw [erase, lookup_filterKeys_eq_some, decide_eq_true_iff]

lemma length_filterKeys_le (p : κ → Bool) (m : SortedMap κ V) : (m.filterKeys p).keys.length ≤ m.keys.length := by
  rw [keys, keys, length_map, length_map]
  exact length_filter_le _ _

lemma length_erase_lt (h : m.lookup k = some v) : (m.erase k).keys.length < m.keys.length := by
  rw [keys, keys, length_map, length_map, erase, filterKeys, ← countP_eq_length_filter, countP_lt_length_iff]
  exact ⟨(k, v), lookup_eq_some.mp h, by simp⟩

lemma length_insert_of_none (h : m.lookup k = none) : (m.insert k v).keys.length = m.keys.length + 1 := by
  rw [keys, keys, length_map, length_map]
  exact (insertEntry_perm (lookup_eq_none.mp h)).length_eq

end SortedMap

end Noid.Lib
