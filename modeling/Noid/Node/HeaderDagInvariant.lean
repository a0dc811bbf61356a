import Noid.Node.HeaderDag

/-! # The invariant of the header DAG

Nodes follow retained points with the next height and the sum of the works, and no retained point is preferred to the best
one.  The retained points are then a tree of parent pointers, in which every loop of the code does what it says.

The finalized point and the nodes are those of headers of a set `H`.  No two headers of the set have one id where that is
assumed (`Set.InjOn blockId H`); the invariant then needs only that no node has the finalized hash. -/

namespace Noid.Node

open Noid.Lib Noid.Chain List

namespace HeaderDag

/-- A retained point and its cumulative work. -/
def Known (d : HeaderDag) (p : ChainPoint) (w : Bytes32) : Prop :=
  p = d.finalized ∧ w = d.finalizedWork ∨ ∃ v, d.nodes.lookup p.hash = some v ∧ p = v.point ∧ w = v.cumulativeWork

/-- The invariant of a graph over headers of `H`. -/
structure DagOk (blockId : BlockHeader → Hash32) (H : Set BlockHeader) (d : HeaderDag) : Prop where
  finalizedHeader : ∃ g ∈ H, d.finalized = ⟨g.height, blockId g⟩
  fresh : d.nodes.lookup d.finalized.hash = none
  hash : ∀ h v, d.nodes.lookup h = some v → v.hash = h ∧ v.hash = blockId v.header
  mem : ∀ h v, d.nodes.lookup h = some v → v.header ∈ H
  above : ∀ h v, d.nodes.lookup h = some v → d.finalized.height < v.header.height
  linked : ∀ h v, d.nodes.lookup h = some v → ∃ p w, d.Known p w ∧ v.header.prevBlockHash = p.hash ∧
    v.header.height = p.height + 1 ∧ v.cumulativeWork.value = w.value + (blockWork v.header.difficultyTarget).value
  size : d.len ≤ d.maxNodes
  best : d.Known d.best d.bestWork
  greatest : ∀ p w, d.Known p w → chooseChainByWork w p.hash d.bestWork d.best.hash ≠ .a

section
variable {blockId : BlockHeader → Hash32} {H : Set BlockHeader} {d : HeaderDag}
variable {v : ValidatedHeader} {w' : Bytes32}

lemma known_node {h : Hash32} (hd : DagOk blockId H d) (hv : d.nodes.lookup h = some v) :
    d.Known v.point v.cumulativeWork :=
  .inr ⟨v, by rw [ValidatedHeader.point, (hd.hash h v hv).1]; exact hv, rfl, rfl⟩

lemma known_finalized : d.Known d.finalized d.finalizedWork := .inl ⟨rfl, rfl⟩

variable (hd : DagOk blockId H d)
include hd

lemma Known.ext {p p' : ChainPoint} {w : Bytes32} (h : d.Known p w) (h' : d.Known p' w') (hhash : p.hash = p'.hash) :
    p = p' ∧ w = w' := by
  have hfresh := hd.fresh
  rcases h with ⟨rfl, rfl⟩ | ⟨v, hv, rfl, rfl⟩ <;> rcases h' with ⟨rfl, rfl⟩ | ⟨v', hv', rfl, rfl⟩
  · exact ⟨rfl, rfl⟩
  · rw [← hhash, hfresh] at hv'
    cases hv'
  · rw [hhash, hfresh] at hv
    cases hv
  · rw [hhash, hv'] at hv
    cases hv
    exact ⟨rfl, rfl⟩

lemma Known.height_le {p : ChainPoint} {w : Bytes32} (h : d.Known p w) :
    d.finalized.height ≤ p.height := by
  rcases h with ⟨rfl, rfl⟩ | ⟨v, hv, rfl, rfl⟩
  · exact le_rfl
  · exact (hd.above _ v hv).le

/-- What follows a node up. -/
def parentPoint (d : HeaderDag) (p : ChainPoint) : ChainPoint :=
  match d.nodes.lookup p.hash with
  | some v => ⟨v.header.height - 1, v.header.prevBlockHash⟩
  | none => p

lemma Known.node {p : ChainPoint} {w : Bytes32} (h : d.Known p w) (hne : p ≠ d.finalized) :
    ∃ v w', d.nodes.lookup p.hash = some v ∧ p = v.point ∧ w = v.cumulativeWork ∧ d.Known (d.parentPoint p) w' ∧
      v.header.prevBlockHash = (d.parentPoint p).hash ∧ v.header.height = (d.parentPoint p).height + 1 ∧
      v.cumulativeWork.value = w'.value + (blockWork v.header.difficultyTarget).value := by
  rcases h with ⟨rfl, -⟩ | ⟨v, hv, hp, rfl⟩
  · exact absurd rfl hne
  · obtain ⟨q, w', hq, hprev, hheight, hwork⟩ := hd.linked _ v hv
    have hparent : d.parentPoint p = q := by
      simp only [parentPoint, hv, hprev, hheight, Nat.add_sub_cancel]
    rw [hparent]
    exact ⟨v, w', hv, hp, rfl, hq, hprev, hheight, hwork⟩

/-- The retained points as a tree of parent pointers. -/
def tree : ParentTree ChainPoint where
  root := d.finalized
  Mem p := ∃ w, d.Known p w
  parent := d.parentPoint
  height := ChainPoint.height
  root_mem := ⟨_, known_finalized⟩
  parent_mem := by
    rintro p ⟨w, hp⟩ hne
    obtain ⟨v, w', -, -, -, hparent, -⟩ := hp.node hd hne
    exact ⟨w', hparent⟩
  height_parent := by
    rintro p ⟨w, hp⟩ hne
    obtain ⟨v, w', -, rfl, -, -, -, hheight, -⟩ := hp.node hd hne
    exact hheight

@[simp] lemma tree_root : (tree hd).root = d.finalized := rfl

@[simp] lemma tree_height (p : ChainPoint) : (tree hd).height p = p.height := rfl

variable {p q : ChainPoint} {w : Bytes32}

lemma parent_eq (h : d.Known p w) (hne : p ≠ d.finalized) :
    d.parent p = .ok (d.parentPoint p) := by
  obtain ⟨v, w', hv, -, -, hparent, -⟩ := h.node hd hne
  have hpoint : (⟨v.header.height - 1, v.header.prevBlockHash⟩ : ChainPoint) = d.parentPoint p := by
    simp only [parentPoint, hv]
  have hfinal : (d.parentPoint p).height = d.finalized.height → d.parentPoint p = d.finalized := fun heq =>
    ParentTree.eq_root (T := tree hd) ⟨w', hparent⟩ heq.le
  have hle := hparent.height_le hd
  rw [← hpoint] at hfinal hle ⊢
  rw [parent, require_bind hne, hv]
  exact (require_bind hle).trans ((require_bind hfinal).trans rfl)

lemma parent_inv (h : d.Known p w) (hq : d.parent p = .ok q) :
    p ≠ d.finalized ∧ q = d.parentPoint p := by
  have hne : p ≠ d.finalized := by
    simp only [parent, ok_rules] at hq
    exact hq.1
  rw [parent_eq hd h hne] at hq
  cases hq
  exact ⟨hne, rfl⟩

/-! ### The loops -/

omit hd in
lemma height_le_rounds (d : HeaderDag) (p : ChainPoint) : p.height ≤ d.rounds p :=
  foldlRecOn (motive := fun n => p.height ≤ n) _ _ le_rfl fun _ hn _ _ => hn.trans (le_max_left _ _)

lemma climbTo_eq {height : ℕ} (h : d.Known p w) (hheight : d.finalized.height ≤ height) :
    d.climbTo height p = .ok ((tree hd).up (p.height - height) p) :=
  climb_height (T := tree hd) (fun _ ⟨_, hx⟩ hne => parent_eq hd hx hne) ⟨w, h⟩ hheight (height_le_rounds d p)

lemma isAncestor_inv (h : d.Known p w) (hq : d.isAncestor q p = .ok true) : (tree hd).Anc q p := by
  rw [isAncestor] at hq
  split_ifs at hq
  · cases hq
  · simp only [ok_rules, decide_eq_true_eq] at hq
    obtain ⟨cursor, hclimb, rfl⟩ := hq
    exact anc_of_climb (T := tree hd) (fun _ _ hx hy => parent_inv hd hx.choose_spec hy) ⟨w, h⟩ hclimb

lemma isAncestor_eq (h : d.Known p w) (hq : d.finalized.height ≤ q.height) :
    ∃ b, d.isAncestor q p = .ok b ∧ (b = true ↔ (tree hd).Anc q p) := by
  rw [isAncestor]
  split_ifs with hlt
  · refine ⟨false, rfl, iff_of_false Bool.false_ne_true fun hanc => ?_⟩
    exact absurd (hanc.height_le ⟨w, h⟩) (Nat.not_le.mpr hlt)
  · refine ⟨_, (bind_of_ok (climbTo_eq hd h hq)).trans rfl, ?_⟩
    rw [decide_eq_true_iff]
    constructor
    · intro hcursor
      exact ⟨p.height - q.height, by change _ + d.finalized.height ≤ p.height; omega, hcursor⟩
    · intro hanc
      exact (hanc.eq_up ⟨w, h⟩).symm

lemma meet_eq {n fuel : ℕ} (hfuel : n ≤ fuel) (hp : d.Known p w) (hq : d.Known q w')
    (hheight : p.height = q.height) (hn : n + d.finalized.height ≤ p.height)
    (hmeet : (tree hd).up n p = (tree hd).up n q) (hbefore : ∀ m < n, (tree hd).up m p ≠ (tree hd).up m q) :
    d.meet fuel p q = .ok ((tree hd).up n p) := by
  induction n generalizing p q w w' fuel with
  | zero =>
    have heq : p = q := hmeet
    cases fuel <;> rw [meet, if_pos heq] <;> rfl
  | succ n ih =>
    obtain ⟨fuel, rfl⟩ := Nat.exists_eq_add_of_lt hfuel
    have hne : p ≠ q := hbefore 0 (Nat.succ_pos n)
    have hpf : p ≠ d.finalized := by
      rintro rfl
      omega
    have hqf : q ≠ d.finalized := by
      rintro rfl
      omega
    obtain ⟨v, wp, -, rfl, -, hparent, -, hph, -⟩ := hp.node hd hpf
    obtain ⟨v', wq, -, rfl, -, hparent', -, hqh, -⟩ := hq.node hd hqf
    have hvp : v.point.height = v.header.height := rfl
    have hvq : v'.point.height = v'.header.height := rfl
    rw [show n + fuel + 1 = (n + fuel) + 1 by omega, meet, if_neg hne,
      require_bind (by constructor <;> omega), bind_of_ok (parent_eq hd hp hpf),
      bind_of_ok (parent_eq hd hq hqf), (tree hd).up_succ]
    refine ih (by omega) hparent hparent' (by omega) (by omega) hmeet fun m hm => ?_
    have := hbefore (m + 1) (by omega)
    rwa [(tree hd).up_succ, (tree hd).up_succ] at this

/-- Two retained points have a highest common ancestor, and the code finds it. -/
theorem commonAncestor_ok (hp : d.Known p w) (hq : d.Known q w') :
    ∃ a, d.commonAncestor p q = .ok a ∧ (tree hd).Anc a p ∧ (tree hd).Anc a q ∧
      ∀ b, (tree hd).Anc b p → (tree hd).Anc b q → (tree hd).Anc b a := by
  obtain ⟨⟨wl, hl⟩, ⟨wr, hr⟩, hheight, n, hn, hmeet, hbefore, hap, haq, hmax⟩ :=
    ParentTree.exists_common (T := tree hd) ⟨w, hp⟩ ⟨w', hq⟩ rfl rfl
  refine ⟨_, ?_, hap, haq, hmax⟩
  rw [commonAncestor, bind_of_ok (climbTo_eq hd hp (hq.height_le hd))]
  refine (bind_of_ok (climbTo_eq hd hq (hl.height_le hd))).trans ?_
  simp only [tree_height, tree_root] at hn
  exact meet_eq hd (by have := height_le_rounds d ((tree hd).up (p.height - q.height) p); omega) hl hr hheight hn hmeet hbefore

/-! ### Paths -/

/-- Nodes that follow each other from one point to another. -/
def LinkedPath (d : HeaderDag) : ChainPoint → List ValidatedHeader → ChainPoint → Prop
  | base, [], target => base = target
  | base, v :: rest, target =>
    d.nodes.lookup v.hash = some v ∧ v.header.prevBlockHash = base.hash ∧ v.header.height = base.height + 1 ∧
      d.LinkedPath v.point rest target

omit hd in
lemma LinkedPath.snoc {path : List ValidatedHeader} (h : d.LinkedPath p path q)
    (hv : d.nodes.lookup v.hash = some v) (hprev : v.header.prevBlockHash = q.hash)
    (hheight : v.header.height = q.height + 1) : d.LinkedPath p (path ++ [v]) v.point := by
  induction path generalizing p with
  | nil =>
    have heq : p = q := h
    rw [heq]
    exact ⟨hv, hprev, hheight, rfl⟩
  | cons u path ih =>
    obtain ⟨hu, huprev, huheight, hrest⟩ := h
    exact ⟨hu, huprev, huheight, ih hrest⟩

lemma LinkedPath.work {path : List ValidatedHeader} (h : d.LinkedPath p path q) (hp : d.Known p w) (hq : d.Known q w') :
    w'.value = w.value + (path.map fun v => (blockWork v.header.difficultyTarget).value).sum := by
  induction path generalizing p w with
  | nil =>
    have heq : p = q := h
    subst heq
    obtain ⟨-, rfl⟩ := hp.ext hd hq rfl
    rfl
  | cons v path ih =>
    obtain ⟨hv, hprev, -, hrest⟩ := h
    obtain ⟨p', w1, hp', hprev', -, hwork⟩ := hd.linked _ v hv
    obtain ⟨rfl, rfl⟩ := hp.ext hd hp' (hprev.symm.trans hprev')
    rw [ih hrest (known_node hd hv), hwork, map_cons, sum_cons, Nat.add_assoc]

lemma pathBack_ok {n fuel : ℕ} (hfuel : n ≤ fuel) (h : d.Known p w) (hn : n + d.finalized.height ≤ p.height) :
    ∃ path, d.pathBack ((tree hd).up n p) fuel p = .ok path ∧ d.LinkedPath ((tree hd).up n p) path.reverse p := by
  induction n generalizing p w fuel with
  | zero =>
    refine ⟨[], ?_, rfl⟩
    cases fuel with
    | zero => exact if_pos rfl
    | succ fuel => rw [pathBack, (tree hd).up_zero, if_pos rfl]; rfl
  | succ n ih =>
    obtain ⟨fuel, rfl⟩ := Nat.exists_eq_add_of_lt hfuel
    have hne : p ≠ d.finalized := by
      rintro rfl
      omega
    have hup := (ParentTree.up_mem (T := tree hd) ⟨w, h⟩ hn).2
    simp only [tree_height] at hup
    obtain ⟨v, w', hv, hpoint, -, hparent, hprev, hheight, -⟩ := h.node hd hne
    have hph : p.height = v.header.height := by rw [hpoint]; rfl
    have hcursor : (⟨v.header.height - 1, v.header.prevBlockHash⟩ : ChainPoint) = d.parentPoint p := by
      simp only [parentPoint, hv]
    obtain ⟨path, hpath, hlinked⟩ := ih (by omega : n ≤ n + fuel) hparent (by omega)
    have hnot : p ≠ (tree hd).up (n + 1) p := by
      intro heq
      rw [← heq] at hup
      omega
    have hnode : d.nodes.lookup v.hash = some v := by rwa [hpoint] at hv
    have hrest : d.pathBack ((tree hd).up n ((tree hd).parent p)) (n + fuel)
        ⟨v.header.height - 1, v.header.prevBlockHash⟩ = .ok path := by
      rw [hcursor]
      exact hpath
    refine ⟨v :: path, ?_, ?_⟩
    · rw [show n + fuel + 1 = (n + fuel) + 1 by omega, pathBack, if_neg hnot, require_bind (by omega), hv]
      exact (bind_of_ok hrest).trans rfl
    · rw [reverse_cons]
      have hsnoc := hlinked.snoc hnode hprev hheight
      rwa [← hpoint] at hsnoc

lemma pathFrom_ok (h : d.Known p w) (hq : (tree hd).Anc q p) :
    ∃ path, d.pathFrom q p = .ok path ∧ d.LinkedPath q path p := by
  rw [pathFrom]
  split_ifs with heq
  · exact ⟨[], rfl, heq⟩
  · obtain ⟨n, hn, rfl⟩ := hq
    simp only [tree_root, tree_height] at hn
    obtain ⟨path, hpath, hlinked⟩ := pathBack_ok hd (le_trans (by omega) (height_le_rounds d p)) h hn
    exact ⟨path.reverse, (bind_of_ok hpath).trans rfl, hlinked⟩

lemma collectAncestryHashes_ok {n fuel : ℕ} (hfuel : n ≤ fuel) (h : d.Known p w)
    (hn : n + d.finalized.height = p.height) (hashes : List Hash32) :
    ∃ hashes', d.collectAncestryHashes fuel p hashes = .ok hashes' ∧
      ∀ x, x ∈ hashes' ↔ x ∈ hashes ∨ ∃ a, (tree hd).Anc a p ∧ a ≠ d.finalized ∧ a.hash = x := by
  induction n generalizing p w fuel hashes with
  | zero =>
    have hroot : p = d.finalized := ParentTree.eq_root (T := tree hd) ⟨w, h⟩ (by simp only [tree_height, tree_root]; omega)
    refine ⟨hashes, ?_, fun x => ⟨.inl, ?_⟩⟩
    · cases fuel with
      | zero => exact if_pos hroot
      | succ fuel => rw [collectAncestryHashes, if_pos hroot]; rfl
    · rintro (hx | ⟨a, hanc, hne, -⟩)
      · exact hx
      · have hle := hanc.height_le ⟨w, h⟩
        simp only [tree_height] at hle
        exact absurd (ParentTree.eq_root (T := tree hd) (hanc.mem ⟨w, h⟩) (by simp only [tree_height, tree_root]; omega)) hne
  | succ n ih =>
    obtain ⟨fuel, rfl⟩ := Nat.exists_eq_add_of_lt hfuel
    have hne : p ≠ d.finalized := by
      rintro rfl
      omega
    obtain ⟨v, w', -, hpoint, -, hparent, -, hheight, -⟩ := h.node hd hne
    have hph : p.height = v.header.height := by rw [hpoint]; rfl
    obtain ⟨hashes', hrun, hmem⟩ := ih (by omega : n ≤ n + fuel) hparent (by omega)
      (p.hash :: hashes)
    refine ⟨hashes', ?_, fun x => ?_⟩
    · rw [show n + fuel + 1 = (n + fuel) + 1 by omega, collectAncestryHashes, if_neg hne, bind_of_ok (parent_eq hd h hne)]
      exact hrun
    · rw [hmem, mem_cons]
      constructor
      · rintro ((rfl | hx) | ⟨a, hanc, hane, rfl⟩)
        · exact .inr ⟨p, ParentTree.Anc.refl ⟨w, h⟩, hne, rfl⟩
        · exact .inl hx
        · exact .inr ⟨a, hanc.trans (ParentTree.anc_parent ⟨w, h⟩ hne) ⟨w, h⟩, hane, rfl⟩
      · rintro (hx | ⟨a, hanc, hane, rfl⟩)
        · exact .inl (.inr hx)
        · by_cases hap : a = p
          · exact .inl (.inl (by rw [hap]))
          · exact .inr ⟨a, (hanc.of_ne ⟨w, h⟩ hap).2, hane, rfl⟩

/-! ### Eviction -/

omit hd in
lemma worse_foldl {l : List ValidatedHeader} {o : Option ValidatedHeader} :
    (l.foldl worse o = none ↔ o = none ∧ l = []) ∧ ∀ e, l.foldl worse o = some e → o = some e ∨ e ∈ l := by
  induction l generalizing o with
  | nil => simp
  | cons v l ih =>
    have hstep : worse o v = some v ∨ ∃ c, o = some c ∧ worse o v = some c := by
      cases o with
      | none => exact .inl rfl
      | some c =>
        rw [worse]
        split_ifs
        · exact .inl rfl
        · exact .inr ⟨c, rfl, rfl⟩
    rw [foldl_cons]
    refine ⟨?_, fun e he => ?_⟩
    · rw [ih.1]
      rcases hstep with hv | ⟨c, rfl, hc⟩
      · simp [hv]
      · simp [hc]
    · rcases ih.2 e he with hworse | hmem
      · rcases hstep with hv | ⟨c, rfl, hc⟩
        · rw [hv] at hworse
          cases hworse
          exact .inr mem_cons_self
        · rw [hc] at hworse
          exact .inl hworse
      · exact .inr (.tail _ hmem)

/-- A node that may be evicted: a leaf outside the ancestries of the best tip and of the parent. -/
structure Evictable (candidateParent : ChainPoint) (e : ValidatedHeader) : Prop where
  node : d.nodes.lookup e.hash = some e
  offBest : ¬(tree hd).Anc e.point d.best
  offParent : ¬(tree hd).Anc e.point candidateParent
  leaf : ∀ h v, d.nodes.lookup h = some v → v.header.prevBlockHash ≠ e.hash

lemma protected_ok (h : d.Known p w) :
    ∃ first hashes, d.collectAncestryHashes d.best.height d.best [] = .ok first ∧
      d.collectAncestryHashes p.height p first = .ok hashes ∧
      ∀ x, x ∈ hashes ↔ ∃ a, ((tree hd).Anc a d.best ∨ (tree hd).Anc a p) ∧ a ≠ d.finalized ∧ a.hash = x := by
  have hbest := hd.best.height_le hd
  have hp := h.height_le hd
  obtain ⟨first, hfirst, hmem⟩ := collectAncestryHashes_ok hd (n := d.best.height - d.finalized.height) (Nat.sub_le _ _)
    hd.best (by omega) []
  obtain ⟨hashes, hrun, hmem'⟩ := collectAncestryHashes_ok hd (n := p.height - d.finalized.height) (Nat.sub_le _ _)
    h (by omega) first
  refine ⟨first, hashes, hfirst, hrun, fun x => ?_⟩
  rw [hmem', hmem]
  constructor
  · rintro ((hx | ⟨a, ha, hne, rfl⟩) | ⟨a, ha, hne, rfl⟩)
    · cases hx
    · exact ⟨a, .inl ha, hne, rfl⟩
    · exact ⟨a, .inr ha, hne, rfl⟩
  · rintro ⟨a, ha | ha, hne, rfl⟩
    · exact .inl (.inr ⟨a, ha, hne, rfl⟩)
    · exact .inr ⟨a, ha, hne, rfl⟩

/-- A node outside both ancestries, and then a leaf outside. -/
theorem exists_evictable (h : d.Known p w)
    {key : Hash32} (hv : d.nodes.lookup key = some v) (hbest : ¬(tree hd).Anc v.point d.best)
    (hparent : ¬(tree hd).Anc v.point p) : ∃ e, Evictable hd p e := by
  have hpoint : ∀ x ∈ (d.nodes.values.map ValidatedHeader.point).toFinset, ∃ u, d.nodes.lookup u.hash = some u ∧ x = u.point := by
    intro x hx
    rw [mem_toFinset, mem_map] at hx
    obtain ⟨u, hu, rfl⟩ := hx
    obtain ⟨k, hk⟩ := SortedMap.mem_values.mp hu
    exact ⟨u, by rw [(hd.hash k u hk).1]; exact hk, rfl⟩
  have hmem : ∀ {k u}, d.nodes.lookup k = some u → u.point ∈ (d.nodes.values.map ValidatedHeader.point).toFinset :=
    fun hu => mem_toFinset.mpr (mem_map_of_mem (SortedMap.mem_values.mpr ⟨_, hu⟩))
  obtain ⟨x, hx, ⟨hxbest, hxparent⟩, hleaf⟩ := ParentTree.exists_leaf (T := tree hd)
    (d.nodes.values.map ValidatedHeader.point).toFinset (fun x => ¬(tree hd).Anc x d.best ∧ ¬(tree hd).Anc x p)
    (fun x hx => by obtain ⟨u, hu, rfl⟩ := hpoint x hx; exact ⟨_, known_node hd hu⟩) ⟨v.point, hmem hv, hbest, hparent⟩
    (fun y hy hroot hQ => by
      obtain ⟨u, hu, rfl⟩ := hpoint y hy
      have hanc := ParentTree.anc_parent (T := tree hd) ⟨_, known_node hd hu⟩ hroot
      exact ⟨fun hy => hQ.1 (hanc.trans hy ⟨_, hd.best⟩), fun hy => hQ.2 (hanc.trans hy ⟨_, h⟩)⟩)
  obtain ⟨e, he, rfl⟩ := hpoint x hx
  refine ⟨e, he, hxbest, hxparent, fun k u hu hprev => ?_⟩
  have hne : u.point ≠ d.finalized := by
    intro heq
    have habove := hd.above k u hu
    rw [← heq] at habove
    exact lt_irrefl _ habove
  obtain ⟨u', w', hu', hupoint, -, hknown, hprev', -⟩ := (known_node hd hu).node hd hne
  have hsame : u' = u := by
    rw [ValidatedHeader.point, (hd.hash k u hu).1, hu] at hu'
    exact (Option.some.inj hu').symm
  refine hleaf u.point (hmem hu) hne ((hknown.ext hd (known_node hd he) ?_).1)
  rw [← hprev', hsame, hprev]
  rfl

/-- **Eviction** removes an evictable node, if not every node is an ancestor of the best tip or the parent. -/
theorem evictUnprotectedLeaf_ok (h : d.Known p w) :
    ∃ result, d.evictUnprotectedLeaf p = .ok result ∧
      (∀ d', result = some d' → ∃ e, Evictable hd p e ∧ d' = { d with nodes := d.nodes.erase e.hash }) ∧
      (result = none → ∀ key v, d.nodes.lookup key = some v → (tree hd).Anc v.point d.best ∨ (tree hd).Anc v.point p) := by
  obtain ⟨first, hashes, hfirst, hhashes, hprotected⟩ := protected_ok hd h
  refine ⟨_, by rw [evictUnprotectedLeaf, bind_of_ok hfirst, bind_of_ok hhashes]; rfl, ?_, ?_⟩
  · intro d' hd'
    obtain ⟨e, he, rfl⟩ := Option.map_eq_some_iff.mp hd'
    have hmem := (worse_foldl.2 e he).resolve_left (fun hnone => by cases hnone)
    rw [mem_filter, Bool.and_eq_true, Bool.not_eq_true', Bool.not_eq_true', contains_eq_mem,
      contains_eq_mem, decide_eq_false_iff_not, decide_eq_false_iff_not, hprotected] at hmem
    obtain ⟨hvalues, hoff, hleaf⟩ := hmem
    obtain ⟨k, hk⟩ := SortedMap.mem_values.mp hvalues
    have hne : e.point ≠ d.finalized := by
      intro heq
      have habove := hd.above k e hk
      rw [← heq] at habove
      exact lt_irrefl _ habove
    refine ⟨e, ⟨by rw [(hd.hash k e hk).1]; exact hk, fun hanc => hoff ⟨_, .inl hanc, hne, rfl⟩,
      fun hanc => hoff ⟨_, .inr hanc, hne, rfl⟩, fun k' v hv hprev => hleaf ?_⟩, rfl⟩
    exact mem_map.mpr ⟨v, SortedMap.mem_values.mpr ⟨k', hv⟩, hprev⟩
  · intro hnone key v hv
    by_contra hnot
    rw [not_or] at hnot
    obtain ⟨e, he⟩ := exists_evictable hd h hv hnot.1 hnot.2
    rw [Option.map_eq_none_iff, worse_foldl.1] at hnone
    have hmem : e ∈ d.nodes.values.filter fun node => !hashes.contains node.hash &&
        !(d.nodes.values.map (·.header.prevBlockHash)).contains node.hash := by
      rw [mem_filter, Bool.and_eq_true, Bool.not_eq_true', Bool.not_eq_true', contains_eq_mem,
        contains_eq_mem, decide_eq_false_iff_not, decide_eq_false_iff_not, hprotected]
      refine ⟨SortedMap.mem_values.mpr ⟨_, he.node⟩, ?_, fun hparents => ?_⟩
      · rintro ⟨a, ha, -, hhash⟩
        have hknown : ∃ w, d.Known a w := ha.elim (fun ha => ha.mem ⟨_, hd.best⟩) fun ha => ha.mem ⟨_, h⟩
        obtain ⟨wa, hwa⟩ := hknown
        have heq := (hwa.ext hd (known_node hd he.node) hhash).1
        rw [heq] at ha
        exact ha.elim he.offBest he.offParent
      · obtain ⟨u, hu, hprev⟩ := mem_map.mp hparents
        obtain ⟨k, hk⟩ := SortedMap.mem_values.mp hu
        exact he.leaf k u hk hprev
    rw [hnone.2] at hmem
    cases hmem

end

end HeaderDag

end Noid.Node
