import Noid.Node.HeaderDagInvariant

/-! # The steps of the header DAG

`insert` and `advanceFinalized` keep the invariant.  An accepted header is retained, the best tip before an insertion
stays retained, and no tip that lost against the best one before is preferred to the best one after. -/

namespace Noid.Node

open Noid.Lib Noid.Chain SortedMap

namespace HeaderDag

variable {blockId : BlockHeader → Hash32} {H : Set BlockHeader} {d d' : HeaderDag} {p : ChainPoint} {w : Bytes32} {v : ValidatedHeader}

/-- No tip that is not preferred to the best tip becomes preferred. -/
def BestGrows (d d' : HeaderDag) : Prop :=
  ∀ hash work, chooseChainByWork work hash d.bestWork d.best.hash ≠ .a →
    chooseChainByWork work hash d'.bestWork d'.best.hash ≠ .a

/-! ### Making room -/

/-- A graph with room for a child of a point. -/
structure RoomOk (blockId : BlockHeader → Hash32) (H : Set BlockHeader) (d : HeaderDag) (p : ChainPoint) (w : Bytes32)
    (d' : HeaderDag) : Prop where
  ok : DagOk blockId H d'
  room : d'.len < d'.maxNodes
  parent : d'.Known p w
  bestKnown : d'.Known d.best d.bestWork
  same : d'.finalized = d.finalized ∧ d'.finalizedWork = d.finalizedWork ∧ d'.best = d.best ∧ d'.bestWork = d.bestWork ∧
    d'.maxNodes = d.maxNodes
  nodes : ∀ h v, d'.nodes.lookup h = some v → d.nodes.lookup h = some v

lemma known_of_erase {h : Hash32} {p : ChainPoint} {w : Bytes32}
    (hp : ({ d with nodes := d.nodes.erase h } : HeaderDag).Known p w) : d.Known p w := by
  rcases hp with hp | ⟨v, hv, hpv, hw⟩
  · exact .inl hp
  · exact .inr ⟨v, (lookup_erase_eq_some.mp hv).1, hpv, hw⟩

lemma known_erase {h : Hash32} (hp : d.Known p w) (hne : p.hash ≠ h) :
    ({ d with nodes := d.nodes.erase h } : HeaderDag).Known p w := by
  rcases hp with hp | ⟨v, hv, hpv, hw⟩
  · exact .inl hp
  · exact .inr ⟨v, lookup_erase_eq_some.mpr ⟨hv, hne⟩, hpv, hw⟩

section
variable (hd : DagOk blockId H d)
include hd

/-- A point with an ancestry that avoids a node has another hash than the node. -/
theorem hash_ne_of_not_anc {e : ValidatedHeader}
    (he : d.nodes.lookup e.hash = some e) (hp : d.Known p w) (hoff : ¬(tree hd).Anc e.point p) : p.hash ≠ e.hash := by
  intro heq
  have hpoint := (hp.ext hd (known_node hd he) heq).1
  rw [hpoint] at hoff
  exact hoff (ParentTree.Anc.refl ⟨_, known_node hd he⟩)

lemma erase_ok (hp : d.Known p w) {e : ValidatedHeader}
    (he : Evictable hd p e) : RoomOk blockId H d p w { d with nodes := d.nodes.erase e.hash } := by
  have hbest := known_erase hd.best (hash_ne_of_not_anc hd he.node hd.best he.offBest)
  have hlen : (d.nodes.erase e.hash).keys.length < d.nodes.keys.length := length_erase_lt he.node
  have hsize := hd.size
  refine ⟨⟨hd.finalizedHeader, ?_, ?_, ?_, ?_, ?_, ?_, hbest, ?_⟩, lt_of_lt_of_le hlen hd.size,
    known_erase hp (hash_ne_of_not_anc hd he.node hp he.offParent), hbest, ⟨rfl, rfl, rfl, rfl, rfl⟩, ?_⟩
  · refine Option.eq_none_iff_forall_not_mem.mpr fun v hv => ?_
    have hold := (lookup_erase_eq_some.mp hv).1
    rw [hd.fresh] at hold
    cases hold
  · intro h v hv
    exact hd.hash h v (lookup_erase_eq_some.mp hv).1
  · intro h v hv
    exact hd.mem h v (lookup_erase_eq_some.mp hv).1
  · intro h v hv
    exact hd.above h v (lookup_erase_eq_some.mp hv).1
  · intro h v hv
    obtain ⟨hv, -⟩ := lookup_erase_eq_some.mp hv
    obtain ⟨q, w', hq, hprev, hheight, hwork⟩ := hd.linked h v hv
    exact ⟨q, w', known_erase hq (hprev ▸ he.leaf h v hv), hprev, hheight, hwork⟩
  · exact hlen.le.trans hsize
  · intro q w' hq
    exact hd.greatest q w' (known_of_erase hq)
  · intro h v hv
    exact (lookup_erase_eq_some.mp hv).1

lemma makeRoom_ok (hp : d.Known p w) (h : d.makeRoom p = .ok d') : RoomOk blockId H d p w d' := by
  rw [makeRoom] at h
  split_ifs at h with hfull
  · obtain ⟨result, hrun, hsome, -⟩ := evictUnprotectedLeaf_ok hd hp
    rw [bind_of_ok hrun, orElseThrow_eq_ok] at h
    obtain ⟨e, he, rfl⟩ := hsome d' h
    exact erase_ok hd hp he
  · cases h
    exact ⟨hd, not_le.mp hfull, hp, hd.best, ⟨rfl, rfl, rfl, rfl, rfl⟩, fun _ _ hv => hv⟩

/-- A graph that has no room consists of the two ancestries. -/
theorem makeRoom_error (hp : d.Known p w) {e : HeaderDagError} (h : d.makeRoom p = .error e) :
    e = .capacity ∧ ∀ key v, d.nodes.lookup key = some v → (tree hd).Anc v.point d.best ∨ (tree hd).Anc v.point p := by
  rw [makeRoom] at h
  split_ifs at h
  obtain ⟨result, hrun, -, hnone⟩ := evictUnprotectedLeaf_ok hd hp
  rw [bind_of_ok hrun] at h
  cases result with
  | none =>
    cases h
    exact ⟨rfl, hnone rfl⟩
  | some d' => cases h

end

/-! ### Insertion -/

/-- A checked header that follows a retained point. -/
structure Follows (blockId : BlockHeader → Hash32) (v : ValidatedHeader) (p : ChainPoint) (w : Bytes32) : Prop where
  hash : v.hash = blockId v.header
  prev : v.header.prevBlockHash = p.hash
  height : v.header.height = p.height + 1
  work : v.cumulativeWork.value = w.value + (blockWork v.header.difficultyTarget).value

/-- A header as it arrives: one of `H`, with its own hash and no largest number. -/
structure Arrives (blockId : BlockHeader → Hash32) (H : Set BlockHeader) (v : ValidatedHeader) : Prop where
  mem : v.header ∈ H
  hash : v.hash = blockId v.header
  height : v.header.height < U64_MAX
  work : v.cumulativeWork.value < 2 ^ 256 - 1

/-- Without collisions, a header above the finalized point has another hash. -/
theorem Arrives.hash_ne (hinj : Set.InjOn blockId H) (hv : Arrives blockId H v) (hd : DagOk blockId H d)
    (habove : d.finalized.height < v.header.height) : d.finalized.hash ≠ v.hash := by
  intro heq
  obtain ⟨g, hg, hfinal⟩ := hd.finalizedHeader
  rw [hfinal, hv.hash] at heq
  rw [hfinal, ← hinj hg hv.mem heq] at habove
  exact lt_irrefl _ habove

lemma addNode_fields (d : HeaderDag) (v : ValidatedHeader) :
    (d.addNode v).2.finalized = d.finalized ∧ (d.addNode v).2.finalizedWork = d.finalizedWork ∧
      (d.addNode v).2.nodes = d.nodes.insert v.hash v ∧ (d.addNode v).2.maxNodes = d.maxNodes := by
  rw [addNode]
  split_ifs <;> exact ⟨rfl, rfl, rfl, rfl⟩

lemma addNode_best (d : HeaderDag) (v : ValidatedHeader) :
    (chooseChainByWork v.cumulativeWork v.hash d.bestWork d.best.hash = .a ∧
        (d.addNode v).2.best = v.point ∧ (d.addNode v).2.bestWork = v.cumulativeWork) ∨
      chooseChainByWork v.cumulativeWork v.hash d.bestWork d.best.hash ≠ .a ∧
        (d.addNode v).2.best = d.best ∧ (d.addNode v).2.bestWork = d.bestWork := by
  rw [addNode]
  split_ifs with hpref
  · exact .inl ⟨hpref, rfl, rfl⟩
  · exact .inr ⟨hpref, rfl, rfl⟩

lemma not_preferred_self (w : Bytes32) (h : ℕ) : chooseChainByWork w h w h ≠ .a := by
  rw [Ne, chooseChainByWork_eq_a]
  omega

lemma not_preferred_of_preferred {wa wb : Bytes32} {ha hb : ℕ} (h : chooseChainByWork wa ha wb hb = .a) :
    chooseChainByWork wb hb wa ha ≠ .a := by
  rw [chooseChainByWork_eq_a] at h
  rw [Ne, chooseChainByWork_eq_a]
  omega

lemma addNode_grows (d : HeaderDag) (v : ValidatedHeader) : BestGrows d (d.addNode v).2 := by
  intro hash work hnot
  rcases addNode_best d v with ⟨hpref, hbest, hwork⟩ | ⟨-, hbest, hwork⟩
  · rw [hbest, hwork]
    exact not_preferred_trans hnot (not_preferred_of_preferred hpref)
  · rwa [hbest, hwork]

lemma addNode_candidate (d : HeaderDag) (v : ValidatedHeader) :
    chooseChainByWork v.cumulativeWork v.hash (d.addNode v).2.bestWork (d.addNode v).2.best.hash ≠ .a := by
  rcases addNode_best d v with ⟨-, hbest, hwork⟩ | ⟨hnot, hbest, hwork⟩
  · rw [hbest, hwork]
    exact not_preferred_self _ _
  · rwa [hbest, hwork]

lemma lookup_addNode (hnone : d.nodes.lookup v.hash = none) {h : ℕ} {u : ValidatedHeader} :
    (d.addNode v).2.nodes.lookup h = some u ↔ (h = v.hash ∧ u = v) ∨ d.nodes.lookup h = some u := by
  rw [(addNode_fields d v).2.2.1, lookup_insert_of_same (by simp [hnone])]

lemma known_addNode {q : ChainPoint} {w' : Bytes32} (hnone : d.nodes.lookup v.hash = none) :
    (d.addNode v).2.Known q w' ↔ d.Known q w' ∨ q = v.point ∧ w' = v.cumulativeWork := by
  obtain ⟨hfinal, hwork, -⟩ := addNode_fields d v
  rw [Known, Known, hfinal, hwork]
  simp only [lookup_addNode hnone]
  constructor
  · rintro (hq | ⟨u, ⟨hhash, rfl⟩ | hu, hqu, hw⟩)
    · exact .inl (.inl hq)
    · exact .inr ⟨hqu, hw⟩
    · exact .inl (.inr ⟨u, hu, hqu, hw⟩)
  · rintro ((hq | ⟨u, hu, hqu, hw⟩) | ⟨rfl, hw⟩)
    · exact .inl hq
    · exact .inr ⟨u, .inr hu, hqu, hw⟩
    · exact .inr ⟨v, .inl ⟨rfl, rfl⟩, rfl, hw⟩

lemma addNode_ok (hinj : Set.InjOn blockId H) (hd : DagOk blockId H d) (hroom : d.len < d.maxNodes)
    (hnone : d.nodes.lookup v.hash = none) (hp : d.Known p w) (harrives : Arrives blockId H v)
    (hv : Follows blockId v p w) : DagOk blockId H (d.addNode v).2 := by
  obtain ⟨hfinal, -, hnodes, hmax⟩ := addNode_fields d v
  have habove : d.finalized.height < v.header.height := by
    have := hp.height_le hd
    rw [hv.height]
    omega
  refine ⟨by rw [hfinal]; exact hd.finalizedHeader, ?_, ?_, ?_, ?_, ?_, ?_, ?_, ?_⟩
  · rw [hfinal, hnodes, lookup_insert, if_neg (harrives.hash_ne hinj hd habove)]
    exact hd.fresh
  · intro h u hu
    rcases (lookup_addNode hnone).mp hu with ⟨rfl, rfl⟩ | hu
    · exact ⟨rfl, hv.hash⟩
    · exact hd.hash h u hu
  · intro h u hu
    rcases (lookup_addNode hnone).mp hu with ⟨rfl, rfl⟩ | hu
    · exact harrives.mem
    · exact hd.mem h u hu
  · intro h u hu
    rw [hfinal]
    rcases (lookup_addNode hnone).mp hu with ⟨rfl, rfl⟩ | hu
    · exact habove
    · exact hd.above h u hu
  · intro h u hu
    rcases (lookup_addNode hnone).mp hu with ⟨rfl, rfl⟩ | hu
    · exact ⟨p, w, (known_addNode hnone).mpr (.inl hp), hv.prev, hv.height, hv.work⟩
    · obtain ⟨q, w', hq, hrest⟩ := hd.linked h u hu
      exact ⟨q, w', (known_addNode hnone).mpr (.inl hq), hrest⟩
  · rw [len, hnodes, hmax, length_insert_of_none hnone]
    exact hroom
  · rw [known_addNode hnone]
    rcases addNode_best d v with ⟨-, hbest, hwork⟩ | ⟨-, hbest, hwork⟩
    · exact .inr ⟨hbest, hwork⟩
    · rw [hbest, hwork]
      exact .inl hd.best
  · intro q w' hq
    rcases (known_addNode hnone).mp hq with hq | ⟨rfl, rfl⟩
    · exact addNode_grows d v q.hash w' (hd.greatest q w' hq)
    · exact addNode_candidate d v

lemma insert_inv {u : HeaderDagUpdate} (h : d.insert v = .ok (u, d')) :
    d.finalized.height < v.header.height ∧ (d.nodes.lookup v.hash = some v ∧ u = .duplicate ∧ d' = d ∨
        d.nodes.lookup v.hash = none ∧ ∃ p w room, d.candidateParent v = .ok (p, w) ∧
          v.header.height = saturatingSucc p.height ∧
          v.cumulativeWork = addWork w (blockWork v.header.difficultyTarget) ∧ d.makeRoom p = .ok room ∧
          room.addNode v = (u, d')) := by
  simp only [insert, ok_rules] at h
  obtain ⟨habove, h⟩ := h
  refine ⟨habove, ?_⟩
  split at h
  next existing hsome =>
    split_ifs at h with heq
    cases h
    exact .inl ⟨by rw [hsome, heq], rfl, rfl⟩
  next hnone =>
    simp only [ok_rules, Prod.exists] at h
    obtain ⟨p, w, hparent, hheight, hwork, room, hroom, hadd⟩ := h
    exact .inr ⟨hnone, p, w, room, hparent, hheight, hwork, hroom, hadd⟩

lemma candidateParent_inv (hd : DagOk blockId H d) (h : d.candidateParent v = .ok (p, w)) :
    d.Known p w ∧ v.header.prevBlockHash = p.hash := by
  rw [candidateParent] at h
  split_ifs at h with heq
  · cases h
    exact ⟨known_finalized, heq⟩
  · cases hlookup : d.nodes.lookup v.header.prevBlockHash with
    | none =>
      rw [hlookup] at h
      cases h
    | some u =>
      rw [hlookup] at h
      cases h
      exact ⟨known_node hd hlookup, (hd.hash _ u hlookup).1.symm⟩

lemma follows_of_checks (hv : Arrives blockId H v) (hprev : v.header.prevBlockHash = p.hash)
    (hheight : v.header.height = saturatingSucc p.height)
    (hwork : v.cumulativeWork = addWork w (blockWork v.header.difficultyTarget)) : Follows blockId v p w := by
  have hbound := hv.height
  have hsum := hv.work
  refine ⟨hv.hash, hprev, ?_, ?_⟩
  · rw [saturatingSucc] at hheight
    omega
  · have hvalue := congrArg Bytes32.value hwork
    rw [value_addWork] at hvalue
    omega

variable (hd : DagOk blockId H d)
include hd

/-- **Insertion** keeps the invariant, retains the header and never lowers the best tip. -/
theorem insert_ok (hinj : Set.InjOn blockId H) {u : HeaderDagUpdate} (hv : Arrives blockId H v)
    (h : d.insert v = .ok (u, d')) :
    DagOk blockId H d' ∧ d'.Known v.point v.cumulativeWork ∧ d'.Known d.best d.bestWork ∧ BestGrows d d' := by
  obtain ⟨-, ⟨hsome, -, rfl⟩ | ⟨hnone, p, w, room, hparent, hheight, hwork, hroom, hadd⟩⟩ := insert_inv h
  · exact ⟨hd, known_node hd hsome, hd.best, fun _ _ hnot => hnot⟩
  · obtain ⟨hp, hprev⟩ := candidateParent_inv hd hparent
    have hok := makeRoom_ok hd hp hroom
    have hroomNone : room.nodes.lookup v.hash = none := by
      cases hlookup : room.nodes.lookup v.hash with
      | none => rfl
      | some x =>
        rw [hok.nodes _ x hlookup] at hnone
        cases hnone
    obtain ⟨-, -, hbest, hbestWork, -⟩ := hok.same
    have hgrows := addNode_grows room v
    rw [BestGrows, hbest, hbestWork] at hgrows
    obtain rfl : (room.addNode v).2 = d' := congrArg Prod.snd hadd
    exact ⟨addNode_ok hinj hok.ok hok.room hroomNone hok.parent hv (follows_of_checks hv hprev hheight hwork),
      (known_addNode hroomNone).mpr (.inr ⟨rfl, rfl⟩), (known_addNode hroomNone).mpr (.inl hok.bestKnown), hgrows⟩

/-! ### Finality -/

lemma cumulativeWork_inv (h : d.cumulativeWork p = .ok w) : d.Known p w := by
  rw [cumulativeWork] at h
  split_ifs at h with heq
  · cases h
    exact .inl ⟨heq, rfl⟩
  · simp only [ok_rules] at h
    obtain ⟨v, hv, hheight, rfl⟩ := h
    refine .inr ⟨v, hv, ?_, rfl⟩
    rw [ValidatedHeader.point, hheight, (hd.hash _ v hv).1]

lemma keeps_iff (hp : d.Known p w) {h : Hash32} (hv : d.nodes.lookup h = some v) :
    d.keeps p h = true ↔ p.height < v.header.height ∧ (tree hd).Anc p v.point := by
  obtain ⟨b, hrun, hb⟩ := isAncestor_eq hd (known_node hd hv) (hp.height_le hd)
  simp only [keeps, hv, hrun, Bool.and_eq_true, decide_eq_true_eq, hb]

/-- The graph above a point of the best ancestry. -/
theorem known_kept (hp : d.Known p w) {q : ChainPoint}
    {w' : Bytes32} (hfinal : d'.finalized = p) (hwork : d'.finalizedWork = w)
    (hnodes : d'.nodes = d.nodes.filterKeys (d.keeps p)) : d'.Known q w' ↔ d.Known q w' ∧ (tree hd).Anc p q := by
  rw [Known, hfinal, hwork, hnodes]
  constructor
  · rintro (⟨rfl, rfl⟩ | ⟨v, hv, rfl, rfl⟩)
    · exact ⟨hp, ParentTree.Anc.refl ⟨_, hp⟩⟩
    · obtain ⟨hv, hkeep⟩ := lookup_filterKeys_eq_some.mp hv
      exact ⟨known_node hd hv, ((keeps_iff hd hp hv).mp hkeep).2⟩
  · rintro ⟨hq, hanc⟩
    by_cases heq : p = q
    · subst heq
      exact .inl ⟨rfl, (hq.ext hd hp rfl).2⟩
    · obtain ⟨hne, hparent⟩ := hanc.of_ne ⟨_, hq⟩ heq
      obtain ⟨v, wp, hv, rfl, rfl, hknown, -, hheight, -⟩ := hq.node hd hne
      have hle : p.height ≤ (d.parentPoint v.point).height := hparent.height_le ⟨_, hknown⟩
      refine .inr ⟨v, lookup_filterKeys_eq_some.mpr ⟨hv, ?_⟩, rfl, rfl⟩
      exact (keeps_iff hd hp hv).mpr ⟨by omega, hanc⟩

lemma kept_ok (hp : d.Known p w) (hbest : (tree hd).Anc p d.best) :
    DagOk blockId H { d with nodes := d.nodes.filterKeys (d.keeps p), finalized := p, finalizedWork := w } := by
  have hheader : ∃ g ∈ H, p = ⟨g.height, blockId g⟩ := by
    rcases hp with ⟨rfl, -⟩ | ⟨v, hv, rfl, -⟩
    · exact hd.finalizedHeader
    · exact ⟨v.header, hd.mem _ v hv, by rw [ValidatedHeader.point, (hd.hash _ v hv).2]⟩
  have hknown : ∀ q w', ({ d with nodes := d.nodes.filterKeys (d.keeps p), finalized := p
                                  finalizedWork := w } : HeaderDag).Known q w' ↔ d.Known q w' ∧ (tree hd).Anc p q :=
    fun q w' => known_kept hd hp rfl rfl rfl
  refine ⟨hheader, ?_, ?_, ?_, ?_, ?_, ?_, ?_, ?_⟩
  · refine Option.eq_none_iff_forall_not_mem.mpr fun v hv => ?_
    obtain ⟨hv, hkeep⟩ := lookup_filterKeys_eq_some.mp hv
    have hsame := (hp.ext hd (known_node hd hv) (hd.hash _ v hv).1.symm).1
    have habove := ((keeps_iff hd hp hv).mp hkeep).1
    rw [hsame] at habove
    exact lt_irrefl _ habove
  · intro h v hv
    exact hd.hash h v (lookup_filterKeys_eq_some.mp hv).1
  · intro h v hv
    exact hd.mem h v (lookup_filterKeys_eq_some.mp hv).1
  · intro h v hv
    obtain ⟨hv, hkeep⟩ := lookup_filterKeys_eq_some.mp hv
    exact ((keeps_iff hd hp hv).mp hkeep).1
  · intro h v hv
    obtain ⟨hv, hkeep⟩ := lookup_filterKeys_eq_some.mp hv
    obtain ⟨hheight, hanc⟩ := (keeps_iff hd hp hv).mp hkeep
    have hne : p ≠ v.point := by
      rintro rfl
      exact lt_irrefl _ hheight
    obtain ⟨hroot, hparent⟩ := hanc.of_ne ⟨_, known_node hd hv⟩ hne
    obtain ⟨q, w', hq, hprev, hqh, hwork⟩ := hd.linked h v hv
    have hparentPoint : d.parentPoint v.point = q := by
      simp only [parentPoint, ValidatedHeader.point, (hd.hash h v hv).1, hv, hprev, hqh, Nat.add_sub_cancel]
    exact ⟨q, w', (hknown q w').mpr ⟨hq, hparentPoint ▸ hparent⟩, hprev, hqh, hwork⟩
  · exact (length_filterKeys_le _ _).trans hd.size
  · exact (hknown _ _).mpr ⟨hd.best, hbest⟩
  · intro q w' hq
    exact hd.greatest q w' ((hknown q w').mp hq).1

/-- **Finality** keeps the invariant and the best tip. -/
theorem advanceFinalized_ok (hwork : d.cumulativeWork p = .ok w) (h : d.advanceFinalized p w = .ok d') :
    DagOk blockId H d' ∧ d'.best = d.best ∧ d'.bestWork = d.bestWork := by
  have hp := cumulativeWork_inv hd hwork
  by_cases heq : p = d.finalized
  · obtain ⟨-, hw⟩ := hp.ext hd known_finalized (congrArg ChainPoint.hash heq)
    rw [advanceFinalized, if_pos heq, hw] at h
    cases h
    exact ⟨hd, rfl, rfl⟩
  · rw [advanceFinalized, if_neg heq] at h
    simp only [ok_rules] at h
    obtain ⟨onBest, hrun, rfl, h⟩ := h
    have hanc := isAncestor_inv hd hd.best hrun
    have hkept := kept_ok hd hp hanc
    split_ifs at h with hlow
    · have hle : p.height ≤ d.best.height := hanc.height_le ⟨_, hd.best⟩
      have hbest : p = d.best := hanc.eq_of_height (ParentTree.Anc.refl ⟨_, hd.best⟩) ⟨_, hd.best⟩
        (by simp only [tree_height]; omega)
      have hw : w = d.bestWork := (hp.ext hd hd.best (congrArg ChainPoint.hash hbest)).2
      cases h
      subst hw
      rw [hbest] at hkept ⊢
      exact ⟨hkept, rfl, rfl⟩
    · cases h
      exact ⟨hkept, rfl, rfl⟩

end HeaderDag

end Noid.Node
