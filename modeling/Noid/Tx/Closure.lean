import Noid.Tx.NativeAssets
import Noid.Lib.SortedMap

/-! # Content-addressed closures

The openings a group carries, together with the definitions they depend on, are resolved from their roots, in the order of
the roots.  `canonicalNativeClosure` does the same over a supplied list and refuses a list with anything else in it. -/

namespace Noid.Tx

open Noid.Lib List

open SortedMap hiding keys

inductive NativeClosureError where
  | bounds
  | missing (root : Address)
  | root (root : Address)
  | carrier (root : Address)
  | extraneous
  | opening (e : NativeAssetError)
deriving DecidableEq, Repr

/-- A `BTreeMap` of openings under their roots. -/
abbrev NativeRecords := SortedMap Address NativeOpening

section
variable (H : NativeHash)

/-! ### Dependencies -/

namespace NativeOpening

/-- The definitions: openings that no slot carries. -/
def isAuxiliary : NativeOpening → Bool
  | .market (.definition _) => true
  | .launch (.definition _) => true
  | .nftMarket (.definition _) => true
  | _ => false

/-- The root of the definition an opening depends on; `validate` has refused the disabled kinds. -/
def dependencyRoot : NativeOpening → Option Address
  | .launch (.state s) => some s.launch
  | .nftMarket (.listing s) => some s.listing
  | .market (.pool p) => some p.pool
  | _ => none

def checkDependency (o : NativeOpening) (dependency : Option NativeOpening) : Except NativeAssetError Unit :=
  match o.dependencyRoot, dependency with
  | none, none => .ok ()
  | some root, some (.nftMarket (.definition d)) => do
    require (d.id H = root) .definition
    match o with
    | .nftMarket (.listing s) => (s.checkDefinition H d).mapError .nftMarket
    | _ => .error .definition
  | some root, some (.launch (.definition d)) => do
    require (d.id H = root) .definition
    match o with
    | .launch (.state s) => (s.checkDefinition H d).mapError .launch
    | _ => .error .definition
  | some root, some (.market (.definition d)) => do
    d.validate.mapError .market
    require (d.id H = root) .definition
    match o with
    | .market (.pool p) => (p.checkDefinition H d).mapError .market
    | _ => .error (.market .pool)
  | _, _ => .error .definition

lemma checkDependency_none {o : NativeOpening} (h : o.dependencyRoot = none) :
    o.checkDependency H none = .ok () := by
  simp only [checkDependency, h]

end NativeOpening

/-! ### Closures -/

section
variable (limit : ℕ) (resolve : Address → Option NativeOpening)

def fetch (root : Address) (records : NativeRecords) :
    Except NativeClosureError (NativeOpening × NativeRecords) :=
  match records.lookup root with
  | some value => .ok (value, records)
  | none => do
    require (records.keys.length < limit) .bounds
    let value ← orElseThrow (.missing root) (resolve root)
    value.validate.mapError .opening
    require (H.root value = root) (.root root)
    return (value, records.insert root value)

def fetchDependency (records : NativeRecords) :
    Option Address → Except NativeClosureError (Option NativeOpening × NativeRecords)
  | none => .ok (none, records)
  | some root => do
    let (value, records) ← fetch H limit resolve root records
    return (some value, records)

/-- The body of the loop over the required roots. -/
def resolveKey (carriers : List Address) (records : NativeRecords) (key : Address) :
    Except NativeClosureError NativeRecords := do
  let (value, records) ← fetch H limit resolve key records
  require (¬(key ∈ carriers ∧ value.isAuxiliary = true)) (.carrier key)
  let (dependency, records) ← fetchDependency H limit resolve records value.dependencyRoot
  (value.checkDependency H dependency).mapError .opening
  return records

end

/-- The distinct roots of a list in order. -/
def rootSet (l : List Address) : List Address := (ofList (l.map fun r => (r, ()))).keys

/-- Carrier roots represent raw state actions; operand roots are committed read objects. -/
def resolveNativeClosure (carriers operands : List Address) (limit : ℕ)
    (resolve : Address → Option NativeOpening) : Except NativeClosureError (List NativeOpening) := do
  let keys := rootSet (carriers ++ operands)
  require (keys.length ≤ limit) .bounds
  let records ← keys.foldlM (resolveKey H limit resolve carriers) .empty
  return records.values

/-- Openings collected under their roots. -/
def byRoot (l : List NativeOpening) : NativeRecords := ofList (l.map fun o => (H.root o, o))

/-- Key the supplied openings; a second opening at a root must be the first one again. -/
def keyed (records : NativeRecords) : List NativeOpening → Except NativeClosureError NativeRecords
  | [] => .ok records
  | o :: rest => do
    require (∀ old ∈ records.lookup (H.root o), old = o) .extraneous
    keyed (records.insert (H.root o) o) rest

def canonicalNativeClosure (carriers operands : List Address) (supplied : List NativeOpening) (limit : ℕ) :
    Except NativeClosureError (List NativeOpening) := do
  require (supplied.length ≤ limit) .bounds
  let records ← keyed H .empty supplied
  let closure ← resolveNativeClosure H carriers operands limit records.lookup
  require (closure.length = records.keys.length) .extraneous
  return closure

/-! ### What a closure is -/

variable {H}

structure Resolved (H : NativeHash) (resolve : Address → Option NativeOpening) (root : Address)
    (o : NativeOpening) : Prop where
  found : resolve root = some o
  valid : o.validate = .ok ()
  root_eq : H.root o = root

/-- An opening at a required root: no definition at a carrier, and a dependency that fits. -/
structure Closed (H : NativeHash) (resolve : Address → Option NativeOpening) (carriers : List Address)
    (key : Address) (o : NativeOpening) : Prop extends Resolved H resolve key o where
  carrier : key ∈ carriers → o.isAuxiliary = false
  dependency : ∀ r, o.dependencyRoot = some r → ∃ d, Resolved H resolve r d ∧ o.checkDependency H (some d) = .ok ()

/-- The roots that a required root brings in: itself and the dependency of what is there. -/
def Needs (resolve : Address → Option NativeOpening) (key root : Address) : Prop :=
  root = key ∨ (resolve key).bind NativeOpening.dependencyRoot = some root

/-- Records that hold only what the resolver has at their roots. -/
def SoundRecords (H : NativeHash) (resolve : Address → Option NativeOpening) (records : NativeRecords) : Prop :=
  ∀ r o, records.lookup r = some o → Resolved H resolve r o

section
variable {limit : ℕ} {resolve : Address → Option NativeOpening} {carriers : List Address}
  {records records' : NativeRecords}

variable {o : NativeOpening} {S : Finset Address}

lemma soundRecords_empty : SoundRecords H resolve .empty := by
  intro r o hr
  cases hr

lemma SoundRecords.insert (h : SoundRecords H resolve records) {r : Address}
    (ho : Resolved H resolve r o) : SoundRecords H resolve (records.insert r o) := by
  intro r' o' hlookup
  rw [lookup_insert] at hlookup
  split_ifs at hlookup with hr
  · cases hlookup
    exact hr ▸ ho
  · exact h r' o' hlookup

/-- Inserting what is there changes nothing. -/
theorem insert_of_lookup {r : Address} (h : records.lookup r = some o) :
    records.insert r o = records := by
  refine ext_lookup fun r' => ?_
  rw [lookup_insert]
  split_ifs with hr
  · rw [hr, h]
  · rfl

section
variable (hs : SoundRecords H resolve records)
include hs

lemma fetch_eq_ok {root : Address} (h : fetch H limit resolve root records = .ok (o, records')) :
    Resolved H resolve root o ∧ records' = records.insert root o := by
  unfold fetch at h
  split at h
  · rename_i value hvalue
    cases h
    exact ⟨hs _ _ hvalue, (insert_of_lookup hvalue).symm⟩
  · simp only [ok_rules, Prod.mk.injEq] at h
    obtain ⟨-, value, hvalue, ⟨⟩, hvalid, hroot, rfl, rfl⟩ := h
    exact ⟨⟨hvalue, hvalid, hroot⟩, rfl⟩

lemma fetch_ok {root : Address}
    (ho : Resolved H resolve root o) (hkeys : ∀ r ∈ records.keys, r ∈ S) (hroot : root ∈ S)
    (hcard : S.card ≤ limit) :
    fetch H limit resolve root records = .ok (o, records.insert root o) := by
  unfold fetch
  split
  · rename_i value hvalue
    have heq : value = o := Option.some_injective _ ((hs _ _ hvalue).found.symm.trans ho.found)
    subst heq
    rw [insert_of_lookup hvalue]
  · rename_i hnone
    have hfresh : root ∉ records.keys := lookup_eq_none.mp hnone
    have hlt : records.keys.length < limit := by
      have hsub : insert root records.keys.toFinset ⊆ S := by
        intro r hr
        rcases Finset.mem_insert.mp hr with rfl | hr
        · exact hroot
        · exact hkeys r (mem_toFinset.mp hr)
      have hle := Finset.card_le_card hsub
      rw [Finset.card_insert_of_notMem (by simpa using hfresh), toFinset_card_of_nodup records.keys_nodup] at hle
      omega
    rw [require_bind hlt, ho.found, bind_of_ok (show orElseThrow _ (some o) = .ok o from rfl),
      mapError_bind ho.valid, require_bind ho.root_eq]
    rfl

lemma fetchDependency_eq_ok {root : Option Address} {d : Option NativeOpening}
    (h : fetchDependency H limit resolve records root = .ok (d, records')) :
    (root = none ∧ d = none ∧ records' = records) ∨
      ∃ r o, root = some r ∧ d = some o ∧ Resolved H resolve r o ∧ records' = records.insert r o := by
  cases root with
  | none =>
    cases h
    exact .inl ⟨rfl, rfl, rfl⟩
  | some r =>
    simp only [fetchDependency, ok_rules, Prod.exists, Prod.mk.injEq] at h
    obtain ⟨o, records'', hfetch, rfl, rfl⟩ := h
    obtain ⟨ho, rfl⟩ := fetch_eq_ok hs hfetch
    exact .inr ⟨r, o, rfl, rfl, ho, rfl⟩

/-- What one turn of the loop does. -/
theorem resolveKey_eq_ok {key : Address} (h : resolveKey H limit resolve carriers records key = .ok records') :
    (∃ o, Closed H resolve carriers key o) ∧ SoundRecords H resolve records' ∧
      ∀ r o, records'.lookup r = some o ↔ (Needs resolve key r ∧ resolve r = some o) ∨ records.lookup r = some o := by
  simp only [resolveKey, ok_rules, Prod.exists] at h
  obtain ⟨o, records1, hfetch, hcarrier, d, records2, hdep, ⟨⟩, hcheck, rfl⟩ := h
  obtain ⟨ho, rfl⟩ := fetch_eq_ok hs hfetch
  have hs1 := hs.insert ho
  have hneeds : ∀ r, Needs resolve key r ↔ r = key ∨ o.dependencyRoot = some r := by
    intro r
    rw [Needs, ho.found, Option.bind_some]
  have haux : key ∈ carriers → o.isAuxiliary = false := by
    intro hkey
    simpa [hkey] using hcarrier
  -- what stands at a resolved root agrees with the records
  have hlookup : ∀ {records : NativeRecords} {r : Address} {o : NativeOpening}, SoundRecords H resolve records →
      Resolved H resolve r o → ∀ r' o', (records.insert r o).lookup r' = some o' ↔
        (r' = r ∧ resolve r' = some o') ∨ records.lookup r' = some o' := by
    intro records r o hs ho r' o'
    rw [lookup_insert_of_same fun old hold => Option.some_injective _ ((hs _ _ hold).found.symm.trans ho.found)]
    refine or_congr_left (and_congr_right fun hr => ?_)
    rw [hr, ho.found, Option.some.injEq, eq_comm]
  rcases fetchDependency_eq_ok hs1 hdep with ⟨hnone, rfl, rfl⟩ | ⟨r, d', hsome, rfl, hd, rfl⟩
  · refine ⟨⟨o, ho, haux, ?_⟩, hs1, ?_⟩
    · intro r hr
      rw [hnone] at hr
      cases hr
    · intro r o'
      rw [hlookup hs ho, hneeds, hnone]
      simp
  · refine ⟨⟨o, ho, haux, ?_⟩, hs1.insert hd, ?_⟩
    · intro r' hr'
      rw [hsome] at hr'
      cases hr'
      exact ⟨d', hd, hcheck⟩
    · intro r' o'
      rw [hlookup hs1 hd, hlookup hs ho, hneeds, hsome, Option.some.injEq, eq_comm (a := r)]
      tauto

lemma resolveKey_ok {key : Address}
    (hkeys : ∀ r ∈ records.keys, r ∈ S) (hneeds : ∀ r, Needs resolve key r → r ∈ S) (hcard : S.card ≤ limit)
    (ho : Closed H resolve carriers key o) :
    ∃ records', resolveKey H limit resolve carriers records key = .ok records' ∧ ∀ r ∈ records'.keys, r ∈ S := by
  have hkeys1 : ∀ {records : NativeRecords} {r : Address} {o : NativeOpening}, (∀ r ∈ records.keys, r ∈ S) →
      r ∈ S → ∀ r' ∈ (records.insert r o).keys, r' ∈ S := by
    intro records r o hkeys hr r' hr'
    obtain ⟨v, hv⟩ := mem_keys.mp hr'
    rw [lookup_insert] at hv
    split_ifs at hv with heq
    · exact heq ▸ hr
    · exact hkeys r' (mem_keys.mpr ⟨v, hv⟩)
  have hkey : key ∈ S := hneeds key (.inl rfl)
  have hcarrier : ¬(key ∈ carriers ∧ o.isAuxiliary = true) := by
    rintro ⟨hmem, haux⟩
    rw [ho.carrier hmem] at haux
    cases haux
  unfold resolveKey
  rw [bind_of_ok (fetch_ok hs ho.toResolved hkeys hkey hcard)]
  simp only
  rw [require_bind hcarrier]
  cases hdep : o.dependencyRoot with
  | none =>
    rw [bind_of_ok (show fetchDependency H limit resolve _ none = .ok (none, _) from rfl)]
    rw [mapError_bind (NativeOpening.checkDependency_none H hdep)]
    exact ⟨_, rfl, hkeys1 hkeys hkey⟩
  | some r =>
    obtain ⟨d, hd, hcheck⟩ := ho.dependency r hdep
    have hr : r ∈ S := hneeds r (.inr (by rw [ho.found, Option.bind_some, hdep]))
    have hfetch := fetch_ok (hs.insert ho.toResolved) hd (hkeys1 hkeys hkey) hr hcard
    have hdependency : fetchDependency H limit resolve (records.insert key o) (some r) =
        .ok (some d, (records.insert key o).insert r d) := by
      rw [fetchDependency, bind_of_ok hfetch]
      rfl
    rw [bind_of_ok hdependency]
    rw [mapError_bind hcheck]
    exact ⟨_, rfl, hkeys1 (hkeys1 hkeys hkey) hr⟩

end

/-- What the loop over the required roots does. -/
theorem foldlM_resolveKey_eq_ok : ∀ {keys : List Address} {records : NativeRecords},
    SoundRecords H resolve records → keys.foldlM (resolveKey H limit resolve carriers) records = .ok records' →
    (∀ k ∈ keys, ∃ o, Closed H resolve carriers k o) ∧ SoundRecords H resolve records' ∧
      ∀ r o, records'.lookup r = some o ↔
        ((∃ k ∈ keys, Needs resolve k r) ∧ resolve r = some o) ∨ records.lookup r = some o
  | [], records, hs, h => by
    cases h
    simpa using hs
  | key :: keys, records, hs, h => by
    simp only [foldlM_cons, bind_eq_ok] at h
    obtain ⟨records1, hkey, hrest⟩ := h
    obtain ⟨hclosed, hs1, hlookup1⟩ := resolveKey_eq_ok hs hkey
    obtain ⟨hall, hs', hlookup⟩ := foldlM_resolveKey_eq_ok hs1 hrest
    refine ⟨forall_mem_cons.mpr ⟨hclosed, hall⟩, hs', ?_⟩
    intro r o
    rw [hlookup, hlookup1, exists_mem_cons_iff, or_and_right, or_assoc]
    exact or_left_comm

lemma foldlM_resolveKey_ok (hcard : S.card ≤ limit) :
    ∀ {keys : List Address} {records : NativeRecords}, SoundRecords H resolve records →
      (∀ r ∈ records.keys, r ∈ S) → (∀ k ∈ keys, ∀ r, Needs resolve k r → r ∈ S) →
      (∀ k ∈ keys, ∃ o, Closed H resolve carriers k o) →
      ∃ records', keys.foldlM (resolveKey H limit resolve carriers) records = .ok records'
  | [], _, _, _, _, _ => ⟨_, rfl⟩
  | key :: keys, records, hs, hkeys, hneeds, hclosed => by
    obtain ⟨o, ho⟩ := hclosed key (by simp)
    obtain ⟨records1, hkey, hkeys1⟩ := resolveKey_ok hs hkeys (hneeds key (by simp)) hcard ho
    obtain ⟨-, hs1, -⟩ := resolveKey_eq_ok hs hkey
    obtain ⟨records', hrest⟩ := foldlM_resolveKey_ok hcard hs1 hkeys1
      (fun k hk => hneeds k (.tail _ hk)) (fun k hk => hclosed k (.tail _ hk))
    exact ⟨records', by rw [foldlM_cons, bind_of_ok hkey, hrest]⟩

end

lemma mem_rootSet {l : List Address} {r : Address} : r ∈ rootSet l ↔ r ∈ l := by
  simp [rootSet, mem_keys_ofList]

variable {carriers operands : List Address} {limit : ℕ} {resolve : Address → Option NativeOpening}
  {l : List NativeOpening}

/-- A closure holds what the resolver has at the roots that are needed, and nothing else. -/
theorem resolveNativeClosure_lookup (h : resolveNativeClosure H carriers operands limit resolve = .ok l) :
    (∀ k ∈ carriers ++ operands, ∃ o, Closed H resolve carriers k o) ∧
      ∃ records : NativeRecords, l = records.values ∧ SoundRecords H resolve records ∧
        ∀ r o, records.lookup r = some o ↔
          (∃ k ∈ carriers ++ operands, Needs resolve k r) ∧ resolve r = some o := by
  simp only [resolveNativeClosure, ok_rules] at h
  obtain ⟨-, records, hrun, rfl⟩ := h
  obtain ⟨hclosed, hsound, hlookup⟩ := foldlM_resolveKey_eq_ok soundRecords_empty hrun
  simp only [mem_rootSet, lookup_empty, reduceCtorEq, or_false] at hclosed hlookup
  exact ⟨hclosed, records, rfl, hsound, hlookup⟩

section
variable {records : NativeRecords} (h : SoundRecords H resolve records)
include h

lemma map_root_values : records.values.map H.root = records.keys := by
  rw [values, SortedMap.keys, map_map]
  refine map_congr_left fun e he => ?_
  exact (h e.1 e.2 (lookup_eq_some.mpr he)).root_eq

lemma SoundRecords.lookup_iff {r : Address} {o : NativeOpening} :
    records.lookup r = some o ↔ o ∈ records.values ∧ H.root o = r := by
  refine ⟨fun ho => ⟨mem_values.mpr ⟨r, ho⟩, (h r o ho).root_eq⟩, ?_⟩
  rintro ⟨ho, rfl⟩
  obtain ⟨r, hr⟩ := mem_values.mp ho
  rw [(h r o hr).root_eq, hr]

end

lemma resolveNativeClosure_roots (h : resolveNativeClosure H carriers operands limit resolve = .ok l) (r : Address) :
    r ∈ l.map H.root ↔ ∃ k ∈ carriers ++ operands, Needs resolve k r := by
  obtain ⟨hclosed, records, rfl, hsound, hlookup⟩ := resolveNativeClosure_lookup h
  rw [map_root_values hsound, SortedMap.mem_keys]
  simp only [hlookup]
  refine ⟨fun ⟨_, hneeds, _⟩ => hneeds, fun ⟨k, hk, hneeds⟩ => ?_⟩
  obtain ⟨v, hv⟩ := hclosed k hk
  rcases id hneeds with rfl | hdep
  · exact ⟨v, ⟨r, hk, hneeds⟩, hv.found⟩
  · rw [hv.found, Option.bind_some] at hdep
    obtain ⟨d, hd, -⟩ := hv.dependency r hdep
    exact ⟨d, ⟨k, hk, hneeds⟩, hd.found⟩

lemma resolveNativeClosure_dependencies (h : resolveNativeClosure H carriers operands limit resolve = .ok l) :
    (∀ o ∈ l, o.validate = .ok ()) ∧
      (l.filter fun o => H.root o ∉ carriers).length ≤ carriers.length + 2 * operands.length := by
  obtain ⟨-, records, rfl, hsound, hlookup⟩ := resolveNativeClosure_lookup h
  refine ⟨fun o ho => ?_, ?_⟩
  · obtain ⟨r, hr⟩ := mem_values.mp ho
    exact (hsound r o hr).valid
  · -- the roots that are not carriers are different, and each is brought in by a required root
    set dependencies := fun r => (resolve r).bind NativeOpening.dependencyRoot with hdependencies
    have hnodup : ((records.values.filter fun o => H.root o ∉ carriers).map H.root).Nodup := by
      have hkeys : (records.values.map H.root).Nodup := (map_root_values hsound).symm ▸ records.keys_nodup
      exact hkeys.sublist (filter_sublist.map H.root)
    have hsub : ((records.values.filter fun o => H.root o ∉ carriers).map H.root) ⊆
        carriers.filterMap dependencies ++ (operands ++ operands.filterMap dependencies) := by
      intro r hr
      obtain ⟨o, ho, rfl⟩ := mem_map.mp hr
      obtain ⟨hmem, hfresh⟩ := mem_filter.mp ho
      obtain ⟨r, hr⟩ := mem_values.mp hmem
      have hroot := (hsound r o hr).root_eq
      obtain ⟨⟨k, hk, hneeds⟩, -⟩ := (hlookup r o).mp hr
      rw [decide_eq_true_eq, hroot] at hfresh
      rw [hroot]
      rcases hneeds with rfl | hdep
      · have hoperand : r ∈ operands := (mem_append.mp hk).resolve_left hfresh
        exact mem_append_right _ (mem_append_left _ hoperand)
      · rcases mem_append.mp hk with hk | hk
        · exact mem_append_left _ (mem_filterMap.mpr ⟨k, hk, hdep⟩)
        · exact mem_append_right _ (mem_append_right _ (mem_filterMap.mpr ⟨k, hk, hdep⟩))
    have hle := (subperm_of_subset hnodup hsub).length_le
    have hcarriers := length_filterMap_le dependencies carriers
    have hoperands := length_filterMap_le dependencies operands
    rw [length_map, length_append, length_append] at hle
    omega

/-- A closure exists when every required root resolves, within a set of roots that fits the limit. -/
theorem resolveNativeClosure_ok {S : Finset Address} (hcard : S.card ≤ limit)
    (hneeds : ∀ k ∈ carriers ++ operands, ∀ r, Needs resolve k r → r ∈ S)
    (hclosed : ∀ k ∈ carriers ++ operands, ∃ o, Closed H resolve carriers k o) :
    ∃ l, resolveNativeClosure H carriers operands limit resolve = .ok l := by
  have hlen : (rootSet (carriers ++ operands)).length ≤ limit := by
    have hsub : (rootSet (carriers ++ operands)).toFinset ⊆ S := by
      intro r hr
      exact hneeds r (mem_rootSet.mp (mem_toFinset.mp hr)) r (.inl rfl)
    have hle := Finset.card_le_card hsub
    have hnodup : (rootSet (carriers ++ operands)).Nodup := keys_nodup _
    rw [toFinset_card_of_nodup hnodup] at hle
    exact hle.trans hcard
  obtain ⟨records, hrun⟩ := foldlM_resolveKey_ok hcard soundRecords_empty (by simp [SortedMap.keys])
    (fun k hk => hneeds k (mem_rootSet.mp hk)) (fun k hk => hclosed k (mem_rootSet.mp hk))
  exact ⟨records.values, by rw [resolveNativeClosure, require_bind hlen, bind_of_ok hrun]; rfl⟩

/-- A closure within a set of roots is no longer than the set. -/
theorem resolveNativeClosure_length {S : Finset Address}
    (h : resolveNativeClosure H carriers operands limit resolve = .ok l)
    (hneeds : ∀ k ∈ carriers ++ operands, ∀ r, Needs resolve k r → r ∈ S) : l.length ≤ S.card := by
  obtain ⟨-, records, rfl, -, hlookup⟩ := resolveNativeClosure_lookup h
  have hsub : records.keys.toFinset ⊆ S := by
    intro r hr
    obtain ⟨o, ho⟩ := mem_keys.mp (mem_toFinset.mp hr)
    obtain ⟨⟨k, hk, hneed⟩, -⟩ := (hlookup r o).mp ho
    exact hneeds k hk r hneed
  have hle := Finset.card_le_card hsub
  rwa [toFinset_card_of_nodup records.keys_nodup, ← length_values] at hle

/-! ### Resolvers that agree -/

section
variable {limit : ℕ} {resolve resolve' : Address → Option NativeOpening} {carriers carriers' : List Address}
  {records : NativeRecords}

lemma fetch_congr {root : Address} (h : resolve' root = resolve root) :
    fetch H limit resolve' root records = fetch H limit resolve root records := by
  unfold fetch
  rw [h]

lemma resolveKey_congr {key : Address} (hs : SoundRecords H resolve records)
    (hcarriers : ∀ r, r ∈ carriers' ↔ r ∈ carriers) (h : ∀ r, Needs resolve key r → resolve' r = resolve r) :
    resolveKey H limit resolve' carriers' records key = resolveKey H limit resolve carriers records key := by
  unfold resolveKey
  rw [fetch_congr (h key (.inl rfl))]
  simp only [hcarriers]
  apply bind_congr_ok
  rintro ⟨o, records1⟩ hfetch
  obtain ⟨ho, -⟩ := fetch_eq_ok hs hfetch
  have hdep : fetchDependency H limit resolve' records1 o.dependencyRoot =
      fetchDependency H limit resolve records1 o.dependencyRoot := by
    cases hroot : o.dependencyRoot with
    | none => rfl
    | some r =>
      have hr : Needs resolve key r := .inr (by rw [ho.found, Option.bind_some, hroot])
      rw [fetchDependency, fetchDependency, fetch_congr (h r hr)]
  simp only [hdep]

lemma foldlM_resolveKey_congr (hcarriers : ∀ r, r ∈ carriers' ↔ r ∈ carriers) :
    ∀ {keys : List Address} {records : NativeRecords}, SoundRecords H resolve records →
      (∀ k ∈ keys, ∀ r, Needs resolve k r → resolve' r = resolve r) →
      keys.foldlM (resolveKey H limit resolve' carriers') records =
        keys.foldlM (resolveKey H limit resolve carriers) records
  | [], _, _, _ => rfl
  | key :: keys, records, hs, h => by
    rw [foldlM_cons, foldlM_cons, resolveKey_congr hs hcarriers (h key (by simp))]
    refine bind_congr_ok fun records1 hkey => ?_
    obtain ⟨-, hs1, -⟩ := resolveKey_eq_ok hs hkey
    exact foldlM_resolveKey_congr hcarriers hs1 fun k hk => h k (.tail _ hk)

lemma rootSet_sorted (l : List Address) : (rootSet l).Pairwise (· < ·) := pairwise_map.mpr (sorted _)

lemma rootSet_congr {l l' : List Address} (h : ∀ r, r ∈ l' ↔ r ∈ l) : rootSet l' = rootSet l :=
  (rootSet_sorted l').eq_of_mem_iff (rootSet_sorted l) fun r => by rw [mem_rootSet, mem_rootSet, h]

/-- The order and multiplicity of the roots do not matter, nor what the resolver has elsewhere. -/
theorem resolveNativeClosure_congr {operands operands' : List Address} (hcarriers : ∀ r, r ∈ carriers' ↔ r ∈ carriers)
    (hoperands : ∀ r, r ∈ operands' ↔ r ∈ operands)
    (h : ∀ k ∈ carriers ++ operands, ∀ r, Needs resolve k r → resolve' r = resolve r) :
    resolveNativeClosure H carriers' operands' limit resolve' =
      resolveNativeClosure H carriers operands limit resolve := by
  have hset : rootSet (carriers' ++ operands') = rootSet (carriers ++ operands) :=
    rootSet_congr fun r => by simp [hcarriers, hoperands]
  unfold resolveNativeClosure
  simp only [hset]
  rw [foldlM_resolveKey_congr hcarriers soundRecords_empty fun k hk => h k (mem_rootSet.mp hk)]

end

/-! ### Supplied openings -/

lemma keyed_eq_ok : ∀ {l : List NativeOpening} {records records' : NativeRecords},
    keyed H records l = .ok records' →
    ∀ r o, records'.lookup r = some o ↔ (o ∈ l ∧ H.root o = r) ∨ records.lookup r = some o
  | [], records, records', h => by
    cases h
    simp
  | x :: l, records, records', h => by
    simp only [keyed, ok_rules] at h
    obtain ⟨hold, hrest⟩ := h
    intro r o
    rw [keyed_eq_ok hrest, lookup_insert_of_same hold, mem_cons]
    constructor
    · rintro (⟨ho, hr⟩ | ⟨rfl, rfl⟩ | h)
      · exact .inl ⟨.inr ho, hr⟩
      · exact .inl ⟨.inl rfl, rfl⟩
      · exact .inr h
    · rintro (⟨rfl | ho, hr⟩ | h)
      · exact .inr (.inl ⟨hr.symm, rfl⟩)
      · exact .inl ⟨ho, hr⟩
      · exact .inr (.inr h)

lemma keyed_ok : ∀ {l : List NativeOpening} {records : NativeRecords},
    (∀ o ∈ l, ∀ old, records.lookup (H.root o) = some old → old = o) →
    (∀ a ∈ l, ∀ b ∈ l, H.root a = H.root b → a = b) → ∃ records', keyed H records l = .ok records'
  | [], records, _, _ => ⟨records, rfl⟩
  | x :: l, records, hold, hinj => by
    have hold' : ∀ o ∈ l, ∀ old, (records.insert (H.root x) x).lookup (H.root o) = some old → old = o := by
      intro o ho old hl
      rcases (lookup_insert_of_same (hold x (by simp))).mp hl with ⟨hr, rfl⟩ | hl
      · exact hinj old (by simp) o (.tail _ ho) hr.symm
      · exact hold o (.tail _ ho) old hl
    obtain ⟨records', h⟩ := keyed_ok hold'
      fun a ha b hb => hinj a (.tail _ ha) b (.tail _ hb)
    have hx : ∀ old ∈ records.lookup (H.root x), old = x := hold x (by simp)
    exact ⟨records', by rw [keyed, require_bind hx, h]⟩

lemma lookup_byRoot (hinj : ∀ a ∈ l, ∀ b ∈ l, H.root a = H.root b → a = b)
    {r : Address} {o : NativeOpening} : (byRoot H l).lookup r = some o ↔ o ∈ l ∧ H.root o = r := by
  rw [byRoot, lookup_ofList_eq_some]
  · simp only [mem_map, Prod.mk.injEq]
    exact ⟨fun ⟨_, hx, hr, ho⟩ => ho ▸ ⟨hx, hr⟩, fun ⟨ho, hr⟩ => ⟨o, ho, hr, rfl⟩⟩
  · intro a ha b hb hab
    obtain ⟨x, hx, rfl⟩ := mem_map.mp ha
    obtain ⟨y, hy, rfl⟩ := mem_map.mp hb
    exact hinj x hx y hy hab

lemma mem_keys_byRoot {r : Address} :
    r ∈ (byRoot H l).keys ↔ r ∈ l.map H.root := by
  rw [byRoot, mem_keys_ofList, map_map]
  rfl

lemma closure_records (h : resolveNativeClosure H carriers operands limit resolve = .ok l) :
    ∃ records : NativeRecords, l = records.values ∧ SoundRecords H resolve records ∧
      resolveNativeClosure H carriers operands limit records.lookup = .ok l ∧
      ∀ supplied : List NativeOpening, (∀ o, o ∈ supplied ↔ o ∈ l) → keyed H .empty supplied = .ok records := by
  obtain ⟨-, records, rfl, hsound, hlookup⟩ := resolveNativeClosure_lookup h
  refine ⟨records, rfl, hsound, ?_, fun supplied hsupplied => ?_⟩
  · -- at a root that is needed the resolver finds something, and the records hold it
    rw [← h]
    refine resolveNativeClosure_congr (fun _ => Iff.rfl) (fun _ => Iff.rfl) fun k hk r hneeds => ?_
    have hfound := (resolveNativeClosure_roots h r).mpr ⟨k, hk, hneeds⟩
    rw [map_root_values hsound] at hfound
    obtain ⟨o, ho⟩ := mem_keys.mp hfound
    rw [ho, ((hlookup r o).mp ho).2]
  · obtain ⟨records', hkeyed⟩ : ∃ records', keyed H .empty supplied = .ok records' := by
      refine keyed_ok (fun o _ old hold => by cases hold) fun a ha b hb hab => ?_
      have hb' := hsound.lookup_iff.mpr ⟨(hsupplied b).mp hb, rfl⟩
      rw [← hab, hsound.lookup_iff.mpr ⟨(hsupplied a).mp ha, rfl⟩] at hb'
      exact Option.some_injective _ hb'
    rw [hkeyed]
    refine congrArg _ (ext_lookup fun r => Option.ext fun o => ?_)
    rw [keyed_eq_ok hkeyed, lookup_empty, hsound.lookup_iff, hsupplied]
    exact or_iff_left (by simp)

/-- **A supplied list is accepted** exactly when it fits the limit and holds a closure. -/
theorem canonicalNativeClosure_eq_ok {supplied : List NativeOpening} :
    canonicalNativeClosure H carriers operands supplied limit = .ok l ↔ supplied.length ≤ limit ∧
      (∃ resolve, resolveNativeClosure H carriers operands limit resolve = .ok l) ∧ ∀ o, o ∈ supplied ↔ o ∈ l := by
  constructor
  · intro h
    simp only [canonicalNativeClosure, ok_rules] at h
    obtain ⟨hlimit, records, hkeyed, closure, hresolve, hlen, rfl⟩ := h
    obtain ⟨-, found, rfl, -, hlookup⟩ := resolveNativeClosure_lookup hresolve
    -- the closure is as long as the supplied records, so nothing is left over
    have hsub : found.keys ⊆ records.keys := by
      intro r hr
      obtain ⟨o, ho⟩ := mem_keys.mp hr
      exact mem_keys.mpr ⟨o, ((hlookup r o).mp ho).2⟩
    have hperm : found.keys.Perm records.keys :=
      (found.keys_nodup.subperm hsub).perm_of_length_le (by rw [← hlen, length_values])
    obtain rfl : found = records := by
      refine ext_lookup fun r => Option.ext fun o => ⟨fun ho => ((hlookup r o).mp ho).2, fun ho => ?_⟩
      obtain ⟨o', ho'⟩ := mem_keys.mp (hperm.mem_iff.mpr (mem_keys.mpr ⟨o, ho⟩))
      rw [ho', ← ((hlookup r o').mp ho').2, ho]
    refine ⟨hlimit, ⟨_, hresolve⟩, fun o => ?_⟩
    simp only [mem_values, keyed_eq_ok hkeyed, lookup_empty, reduceCtorEq, or_false,
      exists_and_left, exists_eq', and_true]
  · rintro ⟨hlimit, ⟨resolve, h⟩, hsupplied⟩
    obtain ⟨records, rfl, -, hself, hkeyed⟩ := closure_records h
    rw [canonicalNativeClosure, require_bind hlimit, bind_of_ok (hkeyed _ hsupplied), bind_of_ok hself,
      require_bind (length_values _)]
    rfl

lemma resolveNativeClosure_sorted (h : resolveNativeClosure H carriers operands limit resolve = .ok l) :
    (l.map H.root).Pairwise (· < ·) := by
  obtain ⟨records, rfl, hsound, -⟩ := closure_records h
  rw [map_root_values hsound]
  exact pairwise_map.mpr records.sorted

lemma canonicalNativeClosure_closed {supplied : List NativeOpening}
    (h : canonicalNativeClosure H carriers operands supplied limit = .ok l) :
    (∀ o, o ∈ l ↔ o ∈ supplied) ∧ (l.map H.root).Pairwise (· < ·) ∧
      canonicalNativeClosure H carriers operands l limit = .ok l ∧
      resolveNativeClosure H carriers operands limit (byRoot H l).lookup = .ok l ∧ (byRoot H l).values = l := by
  obtain ⟨hlimit, ⟨resolve, hresolve⟩, hsupplied⟩ := canonicalNativeClosure_eq_ok.mp h
  have hsorted := resolveNativeClosure_sorted hresolve
  have hnodup : (l.map H.root).Nodup := hsorted.imp fun hlt => hlt.ne
  have hle : l.length ≤ limit :=
    (hnodup.of_map.subperm fun o ho => (hsupplied o).mpr ho).length_le.trans hlimit
  obtain ⟨records, rfl, hsound, hself, -⟩ := closure_records hresolve
  have hby : byRoot H records.values = records := by
    refine ext_lookup fun r => Option.ext fun o => ?_
    rw [lookup_byRoot (inj_on_of_nodup_map hnodup), hsound.lookup_iff]
  rw [hby]
  exact ⟨fun o => (hsupplied o).symm, hsorted,
    canonicalNativeClosure_eq_ok.mpr ⟨hle, ⟨_, hresolve⟩, fun _ => Iff.rfl⟩, hself, rfl⟩

/-- **A resolved closure is canonical**: carriers with their resolved dependencies are accepted again. -/
theorem canonicalNativeClosure_of_resolved {primary : List NativeOpening}
    (hinj : ∀ a ∈ primary, ∀ b ∈ primary, H.root a = H.root b → a = b)
    (h : resolveNativeClosure H (byRoot H primary).keys operands limit
      (fun r => ((byRoot H primary).lookup r).or (resolve r)) = .ok l)
    (hlen : (primary ++ l.filter fun o => H.root o ∉ (byRoot H primary).keys).length ≤ limit) :
    canonicalNativeClosure H (primary.map H.root) operands
      (primary ++ l.filter fun o => H.root o ∉ (byRoot H primary).keys) limit = .ok l := by
  have hresolve : resolveNativeClosure H (primary.map H.root) operands limit _ = .ok l :=
    (resolveNativeClosure_congr (fun _ => mem_keys_byRoot.symm) (fun _ => Iff.rfl) fun _ _ _ _ => rfl).trans h
  refine canonicalNativeClosure_eq_ok.mpr ⟨hlen, ⟨_, hresolve⟩, fun o => ?_⟩
  obtain ⟨-, records, rfl, hsound, hlookup⟩ := resolveNativeClosure_lookup h
  have hprimary : ∀ o ∈ primary, ((byRoot H primary).lookup (H.root o)).or (resolve (H.root o)) = some o := by
    intro o ho
    simp only [(lookup_byRoot hinj).mpr ⟨ho, rfl⟩, Option.some_or]
  rw [mem_append, mem_filter, decide_eq_true_eq]
  constructor
  · rintro (ho | ⟨ho, -⟩)
    · have hkey : H.root o ∈ (byRoot H primary).keys := mem_keys_byRoot.mpr (mem_map_of_mem ho)
      exact mem_values.mpr
        ⟨_, (hlookup _ _).mpr ⟨⟨_, mem_append_left _ hkey, .inl rfl⟩, hprimary o ho⟩⟩
    · exact ho
  · intro ho
    by_cases hkey : H.root o ∈ (byRoot H primary).keys
    · obtain ⟨o', ho', hroot⟩ := mem_map.mp (mem_keys_byRoot.mp hkey)
      have hfound := ((hlookup _ _).mp (hsound.lookup_iff.mpr ⟨ho, rfl⟩)).2
      rw [← hroot, hprimary o' ho'] at hfound
      exact .inl (Option.some_injective _ hfound ▸ ho')
    · exact .inr ⟨ho, hkey⟩

/-! ### The least closed set -/

/-- The openings at the required roots and at the roots they depend on, over and over. -/
inductive InClosure (resolve : Address → Option NativeOpening) (roots : List Address) : NativeOpening → Prop
  | required {k : Address} {o : NativeOpening} : k ∈ roots → resolve k = some o → InClosure resolve roots o
  | dependency {r : Address} {o d : NativeOpening} :
      InClosure resolve roots o → o.dependencyRoot = some r → resolve r = some d → InClosure resolve roots d

lemma dependencyRoot_of_checkDependency {o d : NativeOpening} (h : o.checkDependency H (some d) = .ok ()) :
    d.dependencyRoot = none := by
  unfold NativeOpening.checkDependency at h
  split at h <;> simp_all [NativeOpening.dependencyRoot]

lemma needs_dependency (hclosed : ∀ k ∈ carriers ++ operands, ∃ o, Closed H resolve carriers k o) {k r r' : Address}
    {o : NativeOpening} (hk : k ∈ carriers ++ operands) (hneeds : Needs resolve k r') (ho : resolve r' = some o)
    (hroot : o.dependencyRoot = some r) : Needs resolve k r := by
  rcases hneeds with rfl | hdep
  · exact .inr (by rw [ho, Option.bind_some, hroot])
  · obtain ⟨v, hv⟩ := hclosed k hk
    rw [hv.found, Option.bind_some] at hdep
    obtain ⟨d, hd, hcheck⟩ := hv.dependency r' hdep
    obtain rfl : d = o := Option.some_injective _ (hd.found.symm.trans ho)
    rw [dependencyRoot_of_checkDependency hcheck] at hroot
    cases hroot

/-- One level of dependencies is all of them. -/
theorem mem_closure_iff (h : resolveNativeClosure H carriers operands limit resolve = .ok l) (o : NativeOpening) :
    o ∈ l ↔ InClosure resolve (carriers ++ operands) o := by
  obtain ⟨hclosed, records, rfl, -, hlookup⟩ := resolveNativeClosure_lookup h
  simp only [mem_values, hlookup]
  constructor
  · rintro ⟨r, ⟨k, hk, rfl | hdep⟩, hfound⟩
    · exact .required hk hfound
    · obtain ⟨v, hv, hroot⟩ := Option.bind_eq_some_iff.mp hdep
      exact .dependency (.required hk hv) hroot hfound
  · intro ho
    induction ho with
    | required hk hfound => exact ⟨_, ⟨_, hk, .inl rfl⟩, hfound⟩
    | dependency _ hroot hfound ih =>
      obtain ⟨r', ⟨k, hk, hneeds⟩, ho⟩ := ih
      exact ⟨_, ⟨k, hk, needs_dependency hclosed hk hneeds ho hroot⟩, hfound⟩

/-- **A closure is exact**: the least set of openings that holds what is required and is closed under dependencies,
sorted by root; and a list is accepted exactly when it has these openings within the limit. -/
theorem native_closure_exact (H : NativeHash) :
    (∀ carriers operands limit resolve l, resolveNativeClosure H carriers operands limit resolve = .ok l →
      (∀ o, o ∈ l ↔ InClosure resolve (carriers ++ operands) o) ∧
      (∀ k ∈ carriers ++ operands, ∃ o ∈ l, H.root o = k) ∧
      (∀ o ∈ l, ∀ r, o.dependencyRoot = some r → ∃ d ∈ l, H.root d = r) ∧
      (l.map H.root).Pairwise (· < ·) ∧
      ∀ carriers' operands', (∀ r, r ∈ carriers' ↔ r ∈ carriers) → (∀ r, r ∈ operands' ↔ r ∈ operands) →
        resolveNativeClosure H carriers' operands' limit resolve = .ok l) ∧
      ∀ carriers operands limit supplied l, canonicalNativeClosure H carriers operands supplied limit = .ok l ↔
        supplied.length ≤ limit ∧ (∃ resolve, resolveNativeClosure H carriers operands limit resolve = .ok l) ∧
          ∀ o, o ∈ supplied ↔ o ∈ l := by
  refine ⟨fun carriers operands limit resolve l h => ?_, fun _ _ _ _ _ => canonicalNativeClosure_eq_ok⟩
  have hroots := resolveNativeClosure_roots h
  refine ⟨mem_closure_iff h, fun k hk => ?_, fun o ho r hr => ?_, resolveNativeClosure_sorted h,
    fun carriers' operands' hcarriers hoperands => ?_⟩
  · exact mem_map.mp ((hroots k).mpr ⟨k, hk, .inl rfl⟩)
  · obtain ⟨hclosed, records, rfl, -, hlookup⟩ := resolveNativeClosure_lookup h
    obtain ⟨r', hr'⟩ := mem_values.mp ho
    obtain ⟨⟨k, hk, hneeds⟩, hfound⟩ := (hlookup r' o).mp hr'
    exact mem_map.mp ((hroots r).mpr ⟨k, hk, needs_dependency hclosed hk hneeds hfound hr⟩)
  · rw [resolveNativeClosure_congr hcarriers hoperands fun _ _ _ _ => rfl, h]

/-- A hash that tells the definition of a market from its pool. -/
def poolHash : NativeHash :=
  { NativeHash.plain with root := fun o => match o with
                                  | .market (.definition _) => 1
                                  | _ => 2 }

def pairDefinition : NativeOpening := .market (.definition ⟨1, NOID_ASSET, 1, MARKET_PROFILE⟩)

def pairPool : NativeOpening := .market (.pool (permanentPool (10 ^ 6) (10 ^ 6) 0))

def resolvePair (root : Address) : Option NativeOpening :=
  if root = 1 then some pairDefinition else if root = 2 then some pairPool else none

theorem native_closure_pool : resolveNativeClosure poolHash [2] [] 2 resolvePair = .ok [pairDefinition, pairPool] ∧
    InClosure resolvePair [2] pairDefinition ∧
    canonicalNativeClosure poolHash [2, 2] [] [pairPool, pairDefinition] 2 = .ok [pairDefinition, pairPool] := by
  have hresolve : resolveNativeClosure poolHash [2] [] 2 resolvePair = .ok [pairDefinition, pairPool] := by
    decide +kernel
  obtain ⟨hclosure, hcanonical⟩ := native_closure_exact poolHash
  obtain ⟨hmem, -, -, -, hcongr⟩ := hclosure _ _ _ _ _ hresolve
  refine ⟨hresolve, (hmem pairDefinition).mp mem_cons_self, (hcanonical _ _ _ _ _).mpr ⟨le_rfl, ⟨resolvePair, ?_⟩, ?_⟩⟩
  · exact hcongr [2, 2] [] (by simp) (by simp)
  · simp [or_comm]

/-- A list that repeats an opening of the closure is refused when it is longer than the limit. -/
theorem native_closure_repeated :
    resolveNativeClosure .plain [] [1] 1 (fun _ => some (.tokenBalance ⟨1, 1, 1, 0⟩)) = .ok [.tokenBalance ⟨1, 1, 1, 0⟩] ∧
      canonicalNativeClosure .plain [] [1] [.tokenBalance ⟨1, 1, 1, 0⟩, .tokenBalance ⟨1, 1, 1, 0⟩] 1 = .error .bounds := by
  decide

end

end Noid.Tx
