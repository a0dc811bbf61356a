import Noid.Node.HeaderDagSteps

/-! # Runs of the header DAG

A run is any sequence of `insert` and `advanceFinalized` calls; a refused call changes nothing.  While there is room, what
is accepted is determined by the set of headers, whatever their order.  Heights have to stay below the largest `u64`:
there `saturating_add` accepts a child with the height of its parent. -/

namespace Noid.Node

open Noid.Lib Noid.Chain List

namespace HeaderDag

variable {blockId : BlockHeader → Hash32} {H : Set BlockHeader} {d : HeaderDag} {p q : ChainPoint} {w : Bytes32}

/-! ### Ancestors as paths -/

/-- A path of nodes leads from one point to the other. -/
def Ancestor (d : HeaderDag) (a x : ChainPoint) : Prop := ∃ path, d.LinkedPath a path x

lemma anc_of_linkedPath (hd : DagOk blockId H d) {path : List ValidatedHeader} (hx : d.Known q w)
    (h : d.LinkedPath p path q) : (tree hd).Anc p q := by
  induction path generalizing p with
  | nil =>
    have heq : p = q := h
    rw [heq]
    exact ParentTree.Anc.refl ⟨_, hx⟩
  | cons v path ih =>
    obtain ⟨hv, hprev, hheight, hrest⟩ := h
    have hknown := known_node hd hv
    have hne : v.point ≠ d.finalized := by
      intro heq
      have habove := hd.above _ v hv
      rw [← heq] at habove
      exact lt_irrefl _ habove
    have hparent : (tree hd).parent v.point = p := by
      change d.parentPoint v.point = p
      simp only [parentPoint, ValidatedHeader.point, hv, hprev, hheight, Nat.add_sub_cancel]
    have hanc := ParentTree.anc_parent (T := tree hd) ⟨_, hknown⟩ hne
    rw [hparent] at hanc
    exact hanc.trans (ih hrest) ⟨_, hx⟩

lemma ancestor_iff (hd : DagOk blockId H d) (hq : d.Known q w) :
    d.Ancestor p q ↔ (tree hd).Anc p q := by
  constructor
  · rintro ⟨path, hpath⟩
    exact anc_of_linkedPath hd hq hpath
  · intro hanc
    obtain ⟨path, -, hpath⟩ := pathFrom_ok hd hq hanc
    exact ⟨path, hpath⟩

/-- **The selected path** leads from the highest common ancestor to the best tip. -/
theorem selectedPathFrom_ok (hd : DagOk blockId H d) (hp : d.Known p w) :
    ∃ a path, d.selectedPathFrom p = .ok (a, path) ∧ d.LinkedPath a path d.best ∧ d.Ancestor a p ∧
      ∀ b, d.Ancestor b p → d.Ancestor b d.best → d.Ancestor b a := by
  obtain ⟨a, hcommon, hap, habest, hmax⟩ := commonAncestor_ok hd hp hd.best
  obtain ⟨path, hpath, hlinked⟩ := pathFrom_ok hd hd.best habest
  obtain ⟨wa, ha⟩ := hap.mem ⟨_, hp⟩
  refine ⟨a, path, ?_, hlinked, (ancestor_iff hd hp).mpr hap, fun b hbp hbbest => ?_⟩
  · rw [selectedPathFrom, bind_of_ok hcommon, bind_of_ok hpath]
    rfl
  · rw [ancestor_iff hd hp] at hbp
    rw [ancestor_iff hd hd.best] at hbbest
    exact (ancestor_iff hd ha).mpr (hmax b hbp hbbest)

variable {v : ValidatedHeader}

lemma chain_ok (hd : DagOk blockId H d) {h : Hash32} (hv : d.nodes.lookup h = some v) :
    ∃ path, d.LinkedPath d.finalized path v.point ∧ v.cumulativeWork.value =
      d.finalizedWork.value + (path.map fun u => (blockWork u.header.difficultyTarget).value).sum := by
  have hknown := known_node hd hv
  obtain ⟨path, -, hpath⟩ := pathFrom_ok hd hknown (ParentTree.anc_root (T := tree hd) ⟨_, hknown⟩)
  exact ⟨path, hpath, hpath.work hd known_finalized hknown⟩

/-- A full graph refuses a child of the best tip only if it is the best tip's ancestry. -/
theorem capacity_inv (hd : DagOk blockId H d) (hprev : v.header.prevBlockHash = d.best.hash)
    (h : d.insert v = .error .capacity) {key : Hash32}
    {u : ValidatedHeader} (hu : d.nodes.lookup key = some u) : d.Ancestor u.point d.best := by
  simp only [insert, bind_eq_error, require_eq_error, reduceCtorEq, and_false, false_or, ok_rules] at h
  obtain ⟨-, h⟩ := h
  split at h
  next existing hsome => split_ifs at h <;> cases h
  next hnone =>
    simp only [bind_eq_error, require_eq_error, reduceCtorEq, and_false, false_or, ok_rules, or_false,
      exists_false, Prod.exists, pure_eq_error] at h
    rcases h with hmissing | ⟨p, w, hparent, -, -, hroom⟩
    · rw [candidateParent] at hmissing
      split_ifs at hmissing
      cases hlookup : d.nodes.lookup v.header.prevBlockHash <;> rw [hlookup] at hmissing <;> cases hmissing
    · obtain ⟨hp, hpoint⟩ := candidateParent_inv hd hparent
      have hbest : p = d.best := (hp.ext hd hd.best (hpoint.symm.trans hprev)).1
      rw [ancestor_iff hd hd.best]
      rcases (makeRoom_error hd hp hroom).2 key u hu with hanc | hanc
      · exact hanc
      · rwa [hbest] at hanc

/-! ### Runs -/

/-- A call of the graph. -/
inductive Call where
  | insert (header : BlockHeader) (cumulativeWork : Bytes32)
  | advanceFinalized (finalized : ChainPoint) (finalizedWork : Bytes32)

/-- A graph and the headers it has accepted. -/
structure RunState where
  dag : HeaderDag
  accepted : List ValidatedHeader

def call (blockId : BlockHeader → Hash32) (st : RunState) : Call → RunState
  | .insert header work =>
    let candidate := ValidatedHeader.newAfterConsensusChecks blockId header work
    match st.dag.insert candidate with
    | .ok (_, dag) => ⟨dag, candidate :: st.accepted⟩
    | .error _ => st
  | .advanceFinalized finalized work =>
    match st.dag.advanceFinalized finalized work with
    | .ok dag => { st with dag := dag }
    | .error _ => st

/-- What is assumed of a call: its header arrives as one of `H`, and finality comes with the true work. -/
def Admissible (blockId : BlockHeader → Hash32) (H : Set BlockHeader) (d : HeaderDag) : Call → Prop
  | .insert header work => Arrives blockId H (ValidatedHeader.newAfterConsensusChecks blockId header work)
  | .advanceFinalized finalized work =>
    ∀ d', d.advanceFinalized finalized work = .ok d' → d.cumulativeWork finalized = .ok work

/-- A run: the state it reaches, with every call admissible where it is made. -/
inductive Run (blockId : BlockHeader → Hash32) (H : Set BlockHeader) (start : RunState) : List Call → RunState → Prop
  | nil : Run blockId H start [] start
  | snoc {calls : List Call} {st : RunState} {c : Call} : Run blockId H start calls st →
      Admissible blockId H st.dag c → Run blockId H start (calls ++ [c]) (call blockId st c)

/-- The invariant of a run: no header that was ever accepted is preferred to the best tip. -/
structure RunOk (blockId : BlockHeader → Hash32) (H : Set BlockHeader) (st : RunState) : Prop where
  dag : DagOk blockId H st.dag
  accepted : ∀ v ∈ st.accepted, chooseChainByWork v.cumulativeWork v.hash st.dag.bestWork st.dag.best.hash ≠ .a

lemma call_ok (hinj : Set.InjOn blockId H) {st : RunState} {c : Call} (h : RunOk blockId H st)
    (hc : Admissible blockId H st.dag c) : RunOk blockId H (call blockId st c) := by
  cases c with
  | insert header work =>
    rw [call]
    cases hinsert : st.dag.insert (ValidatedHeader.newAfterConsensusChecks blockId header work) with
    | error e => exact h
    | ok result =>
      obtain ⟨hd', hknown, -, hgrows⟩ := insert_ok h.dag hinj hc hinsert
      exact ⟨hd', forall_mem_cons.mpr ⟨hd'.greatest _ _ hknown, fun v hv => hgrows _ _ (h.accepted v hv)⟩⟩
  | advanceFinalized finalized work =>
    rw [call]
    cases hadvance : st.dag.advanceFinalized finalized work with
    | error e => exact h
    | ok d' =>
      obtain ⟨hd', hbest, hwork⟩ := advanceFinalized_ok h.dag (hc d' hadvance) hadvance
      refine ⟨hd', fun v hv => ?_⟩
      rw [hbest, hwork]
      exact h.accepted v hv

lemma run_ok (hinj : Set.InjOn blockId H) {start st : RunState} {calls : List Call}
    (hstart : RunOk blockId H start) (h : Run blockId H start calls st) : RunOk blockId H st := by
  induction h with
  | nil => exact hstart
  | snoc _ hc ih => exact call_ok hinj ih hc

/-- A new graph satisfies the invariant. -/
theorem new_ok {g : BlockHeader} (hg : g ∈ H) {maxNodes : ℕ}
    (h : HeaderDag.new ⟨g.height, blockId g⟩ w maxNodes = .ok d) :
    RunOk blockId H ⟨d, []⟩ := by
  simp only [HeaderDag.new, ok_rules] at h
  obtain ⟨hpos, rfl⟩ := h
  refine ⟨⟨⟨g, hg, rfl⟩, rfl, ?_, ?_, ?_, ?_, Nat.zero_le _, .inl ⟨rfl, rfl⟩, ?_⟩, fun v hv => by cases hv⟩
  · intro h v hv
    cases hv
  · intro h v hv
    cases hv
  · intro h v hv
    cases hv
  · intro h v hv
    cases hv
  · rintro p w (⟨rfl, rfl⟩ | ⟨v, hv, -⟩)
    · exact not_preferred_self _ _
    · cases hv

/-! ### Order of arrival -/

/-- Insert one header after the other. -/
def insertAll (d : HeaderDag) (headers : List ValidatedHeader) : HeaderDag :=
  headers.foldl (fun d v => match d.insert v with | .ok (_, d') => d' | .error _ => d) d

/-- Parents come before their children. -/
def ParentsFirst (headers : List ValidatedHeader) : Prop :=
  ∀ before v after, headers = before ++ v :: after → ∀ u ∈ headers, v.header.prevBlockHash = u.hash → u ∈ before

/-- The capacity is not reached before the last header. -/
def BelowCapacity (d : HeaderDag) (headers : List ValidatedHeader) : Prop :=
  ∀ before v after, headers = before ++ v :: after → (d.insertAll before).len < d.maxNodes

/-- The headers of a set that extend a graph. -/
inductive Acceptable (blockId : BlockHeader → Hash32) (d : HeaderDag) (headers : List ValidatedHeader) :
    ValidatedHeader → Prop
  | retained {v : ValidatedHeader} {p : ChainPoint} {w : Bytes32} : v ∈ headers → d.nodes.lookup v.hash = none →
      d.Known p w → Follows blockId v p w → Acceptable blockId d headers v
  | child {v u : ValidatedHeader} : v ∈ headers → d.nodes.lookup v.hash = none → Acceptable blockId d headers u →
      Follows blockId v u.point u.cumulativeWork → Acceptable blockId d headers v

lemma Acceptable.mem {headers : List ValidatedHeader} (h : Acceptable blockId d headers v) :
    v ∈ headers ∧ d.nodes.lookup v.hash = none := by
  cases h with
  | retained hmem hnone => exact ⟨hmem, hnone⟩
  | child hmem hnone => exact ⟨hmem, hnone⟩

lemma Acceptable.mono {headers headers' : List ValidatedHeader} (hsub : ∀ v ∈ headers, v ∈ headers')
    (h : Acceptable blockId d headers v) : Acceptable blockId d headers' v := by
  induction h with
  | retained hmem hnone hp hv => exact .retained (hsub _ hmem) hnone hp hv
  | child hmem hnone _ hv ih => exact .child (hsub _ hmem) hnone ih hv

/-- A new header that follows a retained point is added as soon as there is room. -/
theorem insert_of_follows (hd : DagOk blockId H d) (hnone : d.nodes.lookup v.hash = none) (hp : d.Known p w)
    (hv : Follows blockId v p w) (harrives : Arrives blockId H v) :
    d.insert v = d.makeRoom p >>= fun room => pure (room.addNode v) := by
  have habove : d.finalized.height < v.header.height := by
    have := hp.height_le hd
    rw [hv.height]
    omega
  have hparent : d.candidateParent v = .ok (p, w) := by
    rw [candidateParent, hv.prev]
    rcases hp with ⟨rfl, rfl⟩ | ⟨u, hu, rfl, rfl⟩
    · rw [if_pos rfl]
    · rw [if_neg, hu]
      · rfl
      · intro heq
        rw [heq, hd.fresh] at hu
        cases hu
  have hheight : v.header.height = saturatingSucc p.height := by
    have := hv.height
    have := harrives.height
    rw [saturatingSucc, min_eq_left (by omega)]
    exact hv.height
  have hwork : v.cumulativeWork = addWork w (blockWork v.header.difficultyTarget) := by
    refine Bytes32.ext_value ?_
    have := hv.work
    have := harrives.work
    rw [value_addWork, min_eq_left (by omega)]
    exact hv.work
  rw [insert, require_bind habove, hnone]
  exact (bind_of_ok hparent).trans ((require_bind hheight).trans (require_bind hwork))

/-- A header behind a retained point with the hash of a node is a duplicate of that node. -/
theorem insert_retained (hd : DagOk blockId H d) (hinj : Set.InjOn blockId H) (hp : d.Known p w)
    (hv : Follows blockId v p w) (harrives : Arrives blockId H v) {x : ValidatedHeader}
    (hlookup : d.nodes.lookup v.hash = some x) : d.insert v = .ok (.duplicate, d) := by
  -- the same header has the same parent and so the same work
  obtain ⟨hkey, hid⟩ := hd.hash _ x hlookup
  have hheader : x.header = v.header := hinj (hd.mem _ x hlookup) harrives.mem (hid.symm.trans (hkey.trans hv.hash))
  obtain ⟨p', w', hp', hprev, -, hwork⟩ := hd.linked _ x hlookup
  rw [hheader] at hprev hwork
  obtain ⟨-, rfl⟩ := hp.ext hd hp' (hv.prev.symm.trans hprev)
  have hx : x = v := by
    have hvalue : x.cumulativeWork = v.cumulativeWork := Bytes32.ext_value (hwork.trans hv.work.symm)
    cases x
    cases v
    exact ValidatedHeader.mk.injEq .. |>.mpr ⟨hheader, hkey, hvalue⟩
  have habove := hd.above _ x hlookup
  rw [hx] at hlookup habove
  rw [insert, require_bind habove, hlookup]
  simp only [if_true]
  rfl

/-- A valid child of the best tip is refused for lack of room only. -/
theorem extension_inv (hd : DagOk blockId H d) (hinj : Set.InjOn blockId H) (harrives : Arrives blockId H v)
    (hv : Follows blockId v d.best d.bestWork) {e : HeaderDagError} (h : d.insert v = .error e) : e = .capacity := by
  cases hlookup : d.nodes.lookup v.hash with
  | none =>
    rw [insert_of_follows hd hlookup hd.best hv harrives] at h
    rcases bind_eq_error.mp h with hroom | ⟨room, -, hadd⟩
    · exact (makeRoom_error hd hd.best hroom).1
    · cases hadd
  | some x =>
    rw [insert_retained hd hinj hd.best hv harrives hlookup] at h
    cases h

/-- The graph after some of the headers: it holds what is acceptable among them. -/
structure ArrivedOk (blockId : BlockHeader → Hash32) (H : Set BlockHeader) (d : HeaderDag)
    (headers before : List ValidatedHeader) (e : HeaderDag) : Prop where
  ok : DagOk blockId H e
  same : e.finalized = d.finalized ∧ e.finalizedWork = d.finalizedWork ∧ e.maxNodes = d.maxNodes
  nodes : ∀ h v, e.nodes.lookup h = some v ↔
    d.nodes.lookup h = some v ∨ v ∈ before ∧ v.hash = h ∧ Acceptable blockId d headers v

section
variable {headers before after : List ValidatedHeader} {e : HeaderDag} {v : ValidatedHeader}

lemma ArrivedOk.known (h : ArrivedOk blockId H d headers before e) (hp : d.Known p w) : e.Known p w := by
  rcases hp with ⟨rfl, rfl⟩ | ⟨u, hu, hpu, hwu⟩
  · exact .inl ⟨h.same.1.symm, h.same.2.1.symm⟩
  · exact .inr ⟨u, (h.nodes _ u).mpr (.inl hu), hpu, hwu⟩

lemma ArrivedOk.parent (h : ArrivedOk blockId H d headers before e) (hfirst : ParentsFirst headers)
    (hsplit : headers = before ++ v :: after) (hv : Acceptable blockId d headers v) :
    ∃ p w, e.Known p w ∧ Follows blockId v p w := by
  cases hv with
  | retained _ _ hp hfollows => exact ⟨_, _, h.known hp, hfollows⟩
  | @child _ u _ _ hu hfollows =>
    have hbefore := hfirst before v after hsplit u hu.mem.1 hfollows.prev
    exact ⟨_, _, known_node h.ok ((h.nodes u.hash u).mpr (.inr ⟨hbefore, rfl, hu⟩)), hfollows⟩

lemma ArrivedOk.acceptable (h : ArrivedOk blockId H d headers before e) (hmem : v ∈ headers)
    (hnone : e.nodes.lookup v.hash = none) (hp : e.Known p w) (hfollows : Follows blockId v p w) :
    Acceptable blockId d headers v := by
  have hnew : d.nodes.lookup v.hash = none := by
    cases hlookup : d.nodes.lookup v.hash with
    | none => rfl
    | some u =>
      rw [(h.nodes _ u).mpr (.inl hlookup)] at hnone
      cases hnone
  rcases hp with ⟨rfl, rfl⟩ | ⟨u, hu, rfl, rfl⟩
  · rw [h.same.1, h.same.2.1] at hfollows
    exact .retained hmem hnew known_finalized hfollows
  · rcases (h.nodes _ u).mp hu with hold | ⟨-, -, hacc⟩
    · exact .retained hmem hnew (.inr ⟨u, hold, rfl, rfl⟩) hfollows
    · exact .child hmem hnew hacc hfollows

lemma ArrivedOk.accepts (hinj : Set.InjOn blockId H) (h : ArrivedOk blockId H d headers before e)
    (hfirst : ParentsFirst headers) (hsplit : headers = before ++ v :: after) (harrives : Arrives blockId H v)
    (hroom : e.len < e.maxNodes) (hv : Acceptable blockId d headers v) : ∃ u e', e.insert v = .ok (u, e') := by
  obtain ⟨p, w, hp, hfollows⟩ := h.parent hfirst hsplit hv
  cases hlookup : e.nodes.lookup v.hash with
  | none =>
    have hmake : e.makeRoom p = .ok e := by rw [makeRoom, if_neg (not_le.mpr hroom)]
    exact ⟨_, _, (insert_of_follows h.ok hlookup hp hfollows harrives).trans (bind_of_ok hmake)⟩
  | some x => exact ⟨_, _, insert_retained h.ok hinj hp hfollows harrives hlookup⟩

lemma ArrivedOk.nodes_snoc (h : ArrivedOk blockId H d headers before e) (k : Hash32) (x : ValidatedHeader) :
    (d.nodes.lookup k = some x ∨ x ∈ before ++ [v] ∧ x.hash = k ∧ Acceptable blockId d headers x) ↔
      e.nodes.lookup k = some x ∨ x = v ∧ x.hash = k ∧ Acceptable blockId d headers x := by
  rw [h.nodes, mem_append, mem_singleton, or_and_right, or_assoc]

/-- A header that is refused or known changes nothing. -/
theorem ArrivedOk.skip (h : ArrivedOk blockId H d headers before e)
    (hknown : Acceptable blockId d headers v → e.nodes.lookup v.hash = some v) :
    ArrivedOk blockId H d headers (before ++ [v]) e := by
  refine ⟨h.ok, h.same, fun k x => ?_⟩
  rw [h.nodes_snoc, or_iff_left_of_imp]
  rintro ⟨rfl, rfl, hacc⟩
  exact hknown hacc

lemma ArrivedOk.add (hinj : Set.InjOn blockId H) (h : ArrivedOk blockId H d headers before e) (hmem : v ∈ headers)
    (hroom : e.len < e.maxNodes) (hnone : e.nodes.lookup v.hash = none) (hp : e.Known p w)
    (harrives : Arrives blockId H v) (hfollows : Follows blockId v p w) :
    ArrivedOk blockId H d headers (before ++ [v]) (e.addNode v).2 := by
  obtain ⟨hfinal, hwork, hnodes, hmax⟩ := addNode_fields e v
  refine ⟨addNode_ok hinj h.ok hroom hnone hp harrives hfollows, ⟨hfinal.trans h.same.1, hwork.trans h.same.2.1, hmax.trans h.same.2.2⟩,
    fun k x => ?_⟩
  rw [hnodes, SortedMap.lookup_insert, h.nodes_snoc]
  split_ifs with hk
  · subst hk
    rw [hnone, Option.some.injEq]
    constructor
    · rintro rfl
      exact .inr ⟨rfl, rfl, h.acceptable hmem hnone hp hfollows⟩
    · rintro (hold | ⟨hx, -⟩)
      · cases hold
      · exact hx.symm
  · rw [or_iff_left_of_imp]
    rintro ⟨rfl, hhash, -⟩
    exact absurd hhash.symm hk

lemma ArrivedOk.step (hinj : Set.InjOn blockId H) (h : ArrivedOk blockId H d headers before e)
    (hfirst : ParentsFirst headers) (hsplit : headers = before ++ v :: after) (harrives : Arrives blockId H v)
    (hroom : e.len < e.maxNodes) :
    ArrivedOk blockId H d headers (before ++ [v]) (match e.insert v with | .ok (_, e') => e' | .error _ => e) := by
  cases hinsert : e.insert v with
  | error err =>
    refine h.skip fun hacc => ?_
    obtain ⟨u, e', hok⟩ := h.accepts hinj hfirst hsplit harrives hroom hacc
    rw [hinsert] at hok
    cases hok
  | ok result =>
    obtain ⟨u, e'⟩ := result
    obtain ⟨-, ⟨hsome, -, rfl⟩ | ⟨hnone, p, w, room, hparent, hheight, hwork, hmake, hadd⟩⟩ := insert_inv hinsert
    · exact h.skip fun _ => hsome
    · obtain ⟨hp, hprev⟩ := candidateParent_inv h.ok hparent
      rw [makeRoom, if_neg (not_le.mpr hroom)] at hmake
      cases hmake
      obtain rfl : (e.addNode v).2 = e' := congrArg Prod.snd hadd
      exact h.add hinj (by rw [hsplit]; simp) hroom hnone hp harrives
        (follows_of_checks harrives hprev hheight hwork)

/-- After all headers the graph holds what is acceptable among them. -/
theorem insertAll_ok (hd : DagOk blockId H d) (hinj : Set.InjOn blockId H) (hfirst : ParentsFirst headers)
    (hroom : d.BelowCapacity headers) (harrives : ∀ v ∈ headers, Arrives blockId H v) :
    ArrivedOk blockId H d headers headers (d.insertAll headers) := by
  have hbefore : ∀ n ≤ headers.length, ArrivedOk blockId H d headers (headers.take n) (d.insertAll (headers.take n)) := by
    intro n
    induction n with
    | zero => exact fun _ => ⟨hd, ⟨rfl, rfl, rfl⟩, fun h v => by simp [insertAll]⟩
    | succ n ih =>
      intro hn
      have harrived := ih (by omega)
      have hsplit : headers = headers.take n ++ headers[n] :: headers.drop (n + 1) := by
        rw [getElem_cons_drop, take_append_drop]
      have hlen := hroom _ _ _ hsplit
      rw [← harrived.same.2.2] at hlen
      have hstep := harrived.step hinj hfirst hsplit (harrives _ (getElem_mem hn)) hlen
      rw [← take_append_getElem hn, insertAll, foldl_append]
      exact hstep
  have hall := hbefore headers.length le_rfl
  rwa [take_length] at hall

/-- **Order of arrival**: while there is room, every order with parents before children gives the same graph. -/
theorem insertAll_perm (hd : DagOk blockId H d) (hinj : Set.InjOn blockId H) {headers' : List ValidatedHeader}
    (hperm : headers.Perm headers') (hfirst : ParentsFirst headers) (hfirst' : ParentsFirst headers')
    (hroom : d.BelowCapacity headers) (hroom' : d.BelowCapacity headers') (harrives : ∀ v ∈ headers, Arrives blockId H v) :
    d.insertAll headers = d.insertAll headers' := by
  have h := insertAll_ok hd hinj hfirst hroom harrives
  have h' := insertAll_ok hd hinj hfirst' hroom' fun v hv => harrives v (hperm.mem_iff.mpr hv)
  generalize d.insertAll headers = e at h ⊢
  generalize d.insertAll headers' = e' at h' ⊢
  have hnodes : e.nodes = e'.nodes := by
    refine SortedMap.ext_lookup fun k => Option.ext fun v => ?_
    rw [h.nodes, h'.nodes]
    have hacc : Acceptable blockId d headers v ↔ Acceptable blockId d headers' v :=
      ⟨.mono fun _ hv => hperm.mem_iff.mp hv, .mono fun _ hv => hperm.mem_iff.mpr hv⟩
    rw [hperm.mem_iff, hacc]
  have hfinal : e.finalized = e'.finalized := h.same.1.trans h'.same.1.symm
  have hwork : e.finalizedWork = e'.finalizedWork := h.same.2.1.trans h'.same.2.1.symm
  have hknown : ∀ p w, e.Known p w ↔ e'.Known p w := fun p w => by rw [Known, Known, hnodes, hfinal, hwork]
  -- the best tips are retained in both graphs, and none is preferred to the other
  have hbest := eq_of_not_preferred (h'.ok.greatest _ _ ((hknown _ _).mp h.ok.best))
    (h.ok.greatest _ _ ((hknown _ _).mpr h'.ok.best))
  have hpoint := (h.ok.best.ext h.ok ((hknown _ _).mpr h'.ok.best) hbest.2).1
  have hmax : e.maxNodes = e'.maxNodes := h.same.2.2.trans h'.same.2.2.symm
  cases e
  cases e'
  exact HeaderDag.mk.injEq .. |>.mpr ⟨hfinal, hwork, hpoint, hbest.1, hnodes, hmax⟩

end

/-! ### The properties of every reached graph -/

/-- What holds in a state of a run. -/
structure DagProperties (blockId : BlockHeader → Hash32) (H : Set BlockHeader) (st : RunState) : Prop where
  chain : ∀ key v, st.dag.nodes.lookup key = some v → ∃ path, st.dag.LinkedPath st.dag.finalized path v.point ∧
    v.cumulativeWork.value =
      st.dag.finalizedWork.value + (path.map fun u => (blockWork u.header.difficultyTarget).value).sum
  size : st.dag.len ≤ st.dag.maxNodes
  best : st.dag.Known st.dag.best st.dag.bestWork
  greatest : chooseChainByWork st.dag.finalizedWork st.dag.finalized.hash st.dag.bestWork st.dag.best.hash ≠ .a ∧
    ∀ v ∈ st.accepted, chooseChainByWork v.cumulativeWork v.hash st.dag.bestWork st.dag.best.hash ≠ .a
  kept : ∀ v u dag, Arrives blockId H v → st.dag.insert v = .ok (u, dag) → dag.Known st.dag.best st.dag.bestWork
  selected : ∀ c w, st.dag.Known c w → ∃ a path, st.dag.selectedPathFrom c = .ok (a, path) ∧
    st.dag.LinkedPath a path st.dag.best ∧ st.dag.Ancestor a c ∧
    ∀ b, st.dag.Ancestor b c → st.dag.Ancestor b st.dag.best → st.dag.Ancestor b a
  order : ∀ headers headers', headers.Perm headers' → ParentsFirst headers → ParentsFirst headers' →
    st.dag.BelowCapacity headers → st.dag.BelowCapacity headers' → (∀ v ∈ headers, Arrives blockId H v) →
    st.dag.insertAll headers = st.dag.insertAll headers'
  extension : ∀ v e, Arrives blockId H v → Follows blockId v st.dag.best st.dag.bestWork → st.dag.insert v = .error e →
    e = .capacity
  capacity : ∀ v, v.header.prevBlockHash = st.dag.best.hash → st.dag.insert v = .error .capacity →
    ∀ key u, st.dag.nodes.lookup key = some u → st.dag.Ancestor u.point st.dag.best

/-- **The header DAG**, after every sequence of calls over headers without colliding ids. -/
theorem headerDag_run (hinj : Set.InjOn blockId H) {g : BlockHeader} (hg : g ∈ H) (finalizedWork : Bytes32)
    {maxNodes : ℕ} (hpos : 0 < maxNodes) :
    ∃ d, HeaderDag.new ⟨g.height, blockId g⟩ finalizedWork maxNodes = .ok d ∧
      ∀ calls st, Run blockId H ⟨d, []⟩ calls st → DagProperties blockId H st := by
  have hnew : HeaderDag.new ⟨g.height, blockId g⟩ finalizedWork maxNodes = .ok _ :=
    (require_bind hpos).trans rfl
  refine ⟨_, hnew, fun calls st hrun => ?_⟩
  have h := run_ok hinj (new_ok hg hnew) hrun
  exact {
    chain := fun key v hv => chain_ok h.dag hv
    size := h.dag.size
    best := h.dag.best
    greatest := ⟨h.dag.greatest _ _ known_finalized, h.accepted⟩
    kept := fun v u dag hv hinsert => (insert_ok h.dag hinj hv hinsert).2.2.1
    selected := fun c w hc => selectedPathFrom_ok h.dag hc
    order := fun headers headers' hperm hfirst hfirst' hroom hroom' harrives =>
      insertAll_perm h.dag hinj hperm hfirst hfirst' hroom hroom' harrives
    extension := fun v e hv hfollows hinsert => extension_inv h.dag hinj hv hfollows hinsert
    capacity := fun v hprev hinsert key u hu => capacity_inv h.dag hprev hinsert hu }

/-- A header with given links, for closed runs. -/
def linkHeader (prev height nonce : ℕ) : BlockHeader where
  prevBlockHash := prev
  stateRoot := 0
  txRoot := 0
  timestamp := 0
  height := height
  minerAddress := 0
  nonce := nonce
  difficultyTarget := Bytes32.max
  logSlots := 0
  activeSlotCount := 0
  allocCounter := 0

/-- The work of some blocks with the easiest target. -/
def workOf : ℕ → Bytes32
  | 0 => Bytes32.zero
  | n + 1 => addWork (workOf n) (blockWork Bytes32.max)

/-- A finalized header, two children of it, and a child of the first one. -/
def forkHeaders : List BlockHeader := [linkHeader 0 0 0, linkHeader 0 1 1, linkHeader 0 1 2, linkHeader 1 2 3]

/-- Into a graph of two nodes: the second child is evicted for the child of the first one. -/
def forkCalls : List Call :=
  [.insert (linkHeader 0 1 1) (workOf 1), .insert (linkHeader 0 1 2) (workOf 1), .insert (linkHeader 1 2 3) (workOf 2)]

def forkStart : RunState := ⟨⟨⟨0, 0⟩, .zero, ⟨0, 0⟩, .zero, .empty, 2⟩, []⟩

def forkEnd : RunState := forkCalls.foldl (call BlockHeader.nonce) forkStart

lemma fork_injOn : Set.InjOn BlockHeader.nonce {h | h ∈ forkHeaders} := by
  have hall : ∀ g ∈ forkHeaders, ∀ h ∈ forkHeaders, g.nonce = h.nonce → g = h := by decide +kernel
  exact fun g hg h hh => hall g hg h hh

lemma fork_run : Run BlockHeader.nonce {h | h ∈ forkHeaders} forkStart forkCalls forkEnd := by
  have hmem : linkHeader 0 1 1 ∈ forkHeaders ∧ linkHeader 0 1 2 ∈ forkHeaders ∧ linkHeader 1 2 3 ∈ forkHeaders := by
    decide +kernel
  rw [forkEnd, forkCalls, foldl_cons, foldl_cons, foldl_cons, foldl_nil]
  have h1 : Run BlockHeader.nonce {h | h ∈ forkHeaders} forkStart _ _ :=
    Run.nil.snoc (c := .insert (linkHeader 0 1 1) (workOf 1)) ⟨hmem.1, rfl, by decide, by decide +kernel⟩
  have h2 := h1.snoc (c := .insert (linkHeader 0 1 2) (workOf 1)) ⟨hmem.2.1, rfl, by decide, by decide +kernel⟩
  exact h2.snoc (c := .insert (linkHeader 1 2 3) (workOf 2)) ⟨hmem.2.2, rfl, by decide, by decide +kernel⟩

/-- After the fork and the eviction, the first child becomes final. -/
theorem headerDag_run_fork : HeaderDag.new ⟨0, 0⟩ Bytes32.zero 2 = .ok forkStart.dag ∧
    ∃ st, Run BlockHeader.nonce {h | h ∈ forkHeaders} forkStart (forkCalls ++ [.advanceFinalized ⟨1, 1⟩ (workOf 1)]) st ∧
      st.accepted.length = 3 ∧ st.dag.finalized = ⟨1, 1⟩ ∧ st.dag.best = ⟨2, 3⟩ ∧ st.dag.nodes.lookup 2 = none ∧
      DagProperties BlockHeader.nonce {h | h ∈ forkHeaders} st := by
  obtain ⟨d, hnew, hrun⟩ := headerDag_run fork_injOn (show linkHeader 0 0 0 ∈ forkHeaders by decide) Bytes32.zero
    Nat.zero_lt_two
  cases hnew
  have hfinal : Run BlockHeader.nonce {h | h ∈ forkHeaders} forkStart
      (forkCalls ++ [.advanceFinalized ⟨1, 1⟩ (workOf 1)]) _ :=
    fork_run.snoc fun _ _ => show forkEnd.dag.cumulativeWork ⟨1, 1⟩ = .ok (workOf 1) by decide +kernel
  refine ⟨rfl, _, hfinal, ?_, ?_, ?_, ?_, hrun _ _ hfinal⟩ <;> decide +kernel

/-- **The point at a height**: `pointAtHeight` returns the one ancestor of a retained point there. -/
theorem point_at_height (hinj : Set.InjOn blockId H) {g : BlockHeader} (hg : g ∈ H) {finalizedWork : Bytes32}
    {maxNodes : ℕ} (hnew : HeaderDag.new ⟨g.height, blockId g⟩ finalizedWork maxNodes = .ok d) {calls : List Call}
    {st : RunState} (hrun : Run blockId H ⟨d, []⟩ calls st) (hp : st.dag.Known p w) :
    ∀ height, st.dag.finalized.height ≤ height → height ≤ p.height → ∃ a, st.dag.pointAtHeight p height = .ok a ∧
      ∀ b, st.dag.Ancestor b p ∧ b.height = height ↔ b = a := by
  intro height hle hge
  have hd := (run_ok hinj (new_ok hg hnew) hrun).dag
  have hlevels : p.height - height + (tree hd).root.height ≤ p.height := by
    rw [tree_root]
    omega
  refine ⟨_, (require_bind ⟨hle, hge⟩).trans (climbTo_eq hd hp hle), fun b => ?_⟩
  rw [ancestor_iff hd hp]
  constructor
  · rintro ⟨hanc, rfl⟩
    exact hanc.eq_up ⟨w, hp⟩
  · rintro rfl
    have hup := (ParentTree.up_mem (T := tree hd) ⟨w, hp⟩ hlevels).2
    simp only [tree_height] at hup
    exact ⟨⟨_, hlevels, rfl⟩, by omega⟩

theorem point_at_height_fork : forkEnd.dag.best = ⟨2, 3⟩ ∧ ∃ a, forkEnd.dag.pointAtHeight forkEnd.dag.best 1 = .ok a ∧
    ∀ b, forkEnd.dag.Ancestor b forkEnd.dag.best ∧ b.height = 1 ↔ b = a := by
  have hg : linkHeader 0 0 0 ∈ {h | h ∈ forkHeaders} := by decide
  have hnew : HeaderDag.new ⟨0, 0⟩ .zero 2 = .ok forkStart.dag := rfl
  have hbest := (run_ok fork_injOn (new_ok hg hnew) fork_run).dag.best
  refine ⟨by decide +kernel, point_at_height fork_injOn hg hnew fork_run hbest 1 ?_ ?_⟩ <;> decide +kernel

/-! ### The largest height -/

/-- A child with the height of its parent. -/
def saturatedHeaders : List ValidatedHeader :=
  [⟨linkHeader 0 U64_MAX 1, 1, workOf 1⟩, ⟨linkHeader 1 U64_MAX 2, 2, workOf 2⟩]

/-- At the largest height a child gets the height of its parent, and no path leads to it. -/
theorem saturatedHeight_diverges :
    ∃ d, HeaderDag.new ⟨U64_MAX - 1, 0⟩ Bytes32.zero 4 = .ok d ∧
      (d.insertAll saturatedHeaders).best = ⟨U64_MAX, 2⟩ ∧ (d.insertAll saturatedHeaders).len = 2 ∧
      (d.insertAll saturatedHeaders).selectedPathFrom ⟨U64_MAX - 1, 0⟩ = .error .notAncestor := by
  refine ⟨_, rfl, ?_⟩
  decide +kernel

end HeaderDag

end Noid.Node
