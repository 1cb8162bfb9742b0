import Clacheless.SkipMap
import Clacheless.NodeView

set_option autoImplicit false

/-! # The cluster state view

`ClusterStateView` is a replica's summary of the cluster: its own `LocalSequence` and one
`NodeView` per origin it has received an update from. Replicas gossip `as_map()` (origin id to
baseline) and a receiver asks for a state transfer of every origin it lags behind on
(`get_out_of_sync_node_id_and_baselines`).

The loop body of `get_out_of_sync_node_id_and_baselines` is `outOfSyncBaseline`: skip the local
id; with a `NodeView`, request when its baseline is below the pushed one; without one, request
from `0` whatever was pushed. Both map-building loops are read through the fold lemmas of
`SkipMap`, which gives one `get_*` lemma per function.

The invariant behind gap detection, `BaselinesReceived`, says that every sequence number up to a
`NodeView`'s baseline was received from that origin; every operation keeps it. -/

namespace Clacheless

/-- `ClusterStateView`: the local sequence and a `NodeView` per known remote origin. -/
structure ClusterStateView where
  localSequence : LocalSequence
  otherNodesUpdateSeqs : SkipMap Nat NodeView

namespace ClusterStateView

/-- `ClusterStateView::new`. -/
def new (localNodeId : Nat) : ClusterStateView := ⟨LocalSequence.new localNodeId, ∅⟩

/-- `next_local_update_seq`. -/
def nextLocalUpdateSeq (cv : ClusterStateView) : ClusterStateView × Nat :=
  ({ cv with localSequence := cv.localSequence.generateNext.1 }, cv.localSequence.generateNext.2)

/-- `as_map`: the local `(node_id, current)` once a number was drawn, then every `NodeView`'s
    baseline, inserted in iteration order. -/
def asMap (cv : ClusterStateView) : HashMap Nat Nat :=
  cv.otherNodesUpdateSeqs.entries.foldl (fun ret e => ret.insert e.1 e.2.getBaselineSequence)
    (if cv.localSequence.hasBeenPulled then
      (∅ : HashMap Nat Nat).insert cv.localSequence.nodeId cv.localSequence.current
    else ∅)

/-- The body of the loop of `get_out_of_sync_node_id_and_baselines` for one pushed
    `(node_id, baseline_seq)`: the baseline to request from, if any. -/
def outOfSyncBaseline (cv : ClusterStateView) (nodeId baselineSeq : Nat) : Option Nat :=
  if nodeId = cv.localSequence.nodeId then none
  else match cv.otherNodesUpdateSeqs.get nodeId with
    | some nodeView =>
      if nodeView.getBaselineSequence < baselineSeq then some nodeView.getBaselineSequence
      else none
    | none => some 0

/-- `get_out_of_sync_node_id_and_baselines`. -/
def getOutOfSyncNodeIdAndBaselines (cv : ClusterStateView) (view : HashMap Nat Nat) :
    HashMap Nat Nat :=
  view.entries.foldl (fun ret e => (cv.outOfSyncBaseline e.1 e.2).elim ret (ret.insert e.1)) ∅

/-- `on_recieved_cache_entry_from_other`: `get_or_insert_with(node_id, NodeView::default)`, then
    `update` on that view. -/
def onRecievedCacheEntryFromOther (cv : ClusterStateView) (nodeId updateSeq : Nat) :
    ClusterStateView × Bool :=
  let nodeView := ((cv.otherNodesUpdateSeqs.get nodeId).getD NodeView.default).update updateSeq
  ({ cv with otherNodesUpdateSeqs := cv.otherNodesUpdateSeqs.insert nodeId nodeView.1 },
    nodeView.2)

@[simp] theorem nextLocalUpdateSeq_otherNodesUpdateSeqs (cv : ClusterStateView) :
    cv.nextLocalUpdateSeq.1.otherNodesUpdateSeqs = cv.otherNodesUpdateSeqs := rfl

@[simp] theorem nextLocalUpdateSeq_nodeId (cv : ClusterStateView) :
    cv.nextLocalUpdateSeq.1.localSequence.nodeId = cv.localSequence.nodeId := rfl

@[simp] theorem onRecieved_localSequence (cv : ClusterStateView) (nodeId updateSeq : Nat) :
    (cv.onRecievedCacheEntryFromOther nodeId updateSeq).1.localSequence = cv.localSequence := rfl

theorem onRecieved_get (cv : ClusterStateView) (nodeId updateSeq j : Nat) :
    (cv.onRecievedCacheEntryFromOther nodeId updateSeq).1.otherNodesUpdateSeqs.get j =
      if j = nodeId then
        some ((cv.otherNodesUpdateSeqs.get nodeId).getD NodeView.default |>.update updateSeq).1
      else cv.otherNodesUpdateSeqs.get j :=
  SkipMap.get_insert _ _ _ _

/-! ## What the two maps hold -/

/-- `as_map()` under an id: the `NodeView`'s baseline if there is one, else the local counter for
    the local id once a number was drawn. -/
theorem get_asMap (cv : ClusterStateView) (j : Nat) :
    cv.asMap.get j =
      match cv.otherNodesUpdateSeqs.get j with
      | some nv => some nv.baselineSeq
      | none =>
        if cv.localSequence.hasBeenPulled ∧ j = cv.localSequence.nodeId then
          some cv.localSequence.current
        else none := by
  refine (SkipMap.get_foldl_insert (fun _ (nv : NodeView) => nv.getBaselineSequence)
    cv.otherNodesUpdateSeqs j _).trans ?_
  cases cv.otherNodesUpdateSeqs.get j with
  | some nv => rfl
  | none =>
    by_cases hp : cv.localSequence.hasBeenPulled <;>
      by_cases hj : j = cv.localSequence.nodeId <;> simp [hp, hj]

/-- The gap under an id is the loop body's decision for the pushed baseline, if one was pushed. -/
theorem get_getOutOfSyncNodeIdAndBaselines (cv : ClusterStateView) (view : HashMap Nat Nat)
    (j : Nat) :
    (cv.getOutOfSyncNodeIdAndBaselines view).get j =
      match view.get j with
      | some rb => cv.outOfSyncBaseline j rb
      | none => none := by
  rw [getOutOfSyncNodeIdAndBaselines, SkipMap.get_foldl_insertSome]
  cases view.get j <;> simp [Option.or_none]

/-! ## The sync gap -/

/-- The local baseline for an origin: its `NodeView`'s, or `0` when there is none. -/
def localBaseline (cv : ClusterStateView) (nodeId : Nat) : Nat :=
  ((cv.otherNodesUpdateSeqs.get nodeId).map NodeView.baselineSeq).getD 0

/-- The gap holds `id`, mapped to its local baseline, exactly when `id` was pushed, is not the
    local id, and either its `NodeView` lags the pushed baseline or it has no `NodeView` (then it
    is requested from `0` whatever was pushed). -/
theorem getOutOfSync_get_eq_some_iff (cv : ClusterStateView) (view : HashMap Nat Nat)
    (nodeId b : Nat) :
    (cv.getOutOfSyncNodeIdAndBaselines view).get nodeId = some b ↔
      ∃ rb, view.get nodeId = some rb ∧ nodeId ≠ cv.localSequence.nodeId ∧
        b = cv.localBaseline nodeId ∧
        (cv.localBaseline nodeId < rb ∨ cv.otherNodesUpdateSeqs.get nodeId = none) := by
  rw [get_getOutOfSyncNodeIdAndBaselines]
  cases hv : view.get nodeId with
  | none => simp
  | some rb =>
    simp only [outOfSyncBaseline, localBaseline, NodeView.getBaselineSequence_eq, Option.some.injEq,
      exists_eq_left']
    by_cases hid : nodeId = cv.localSequence.nodeId
    · simp [hid]
    · cases hnv : cv.otherNodesUpdateSeqs.get nodeId with
      | none => simp [hid, eq_comm]
      | some nv => by_cases hlt : nv.baselineSeq < rb <;> simp [hid, hlt, eq_comm]

/-- With no `NodeView` for an origin pushed at baseline `0`, the gap still requests it from `0`,
    although `0 < 0` fails. -/
theorem getOutOfSync_requests_unknown_origin_pushed_at_zero :
    (ClusterStateView.new 7).localBaseline 1 = 0 ∧
      ((∅ : HashMap Nat Nat).insert 1 0).get 1 = some 0 ∧
      ((ClusterStateView.new 7).getOutOfSyncNodeIdAndBaselines
        ((∅ : HashMap Nat Nat).insert 1 0)).get 1 = some 0 := by
  decide

/-! ## Baselines are backed by received updates -/

/-- Every sequence number from `1` up to a `NodeView`'s baseline was received from its origin:
    `(origin, seq)` is in `received`. -/
def BaselinesReceived (cv : ClusterStateView) (received : List (Nat × Nat)) : Prop :=
  ∀ o nv, cv.otherNodesUpdateSeqs.get o = some nv →
    ∀ s, 1 ≤ s → s ≤ nv.baselineSeq → (o, s) ∈ received

theorem baselinesReceived_new (localNodeId : Nat) : BaselinesReceived (new localNodeId) [] := by
  intro o nv h
  simp [new] at h

theorem BaselinesReceived.mono {cv : ClusterStateView} {received received' : List (Nat × Nat)}
    (h : cv.BaselinesReceived received) (hsub : received ⊆ received') :
    cv.BaselinesReceived received' :=
  fun o nv hnv s hs hsb => hsub (h o nv hnv s hs hsb)

theorem BaselinesReceived.nextLocalUpdateSeq {cv : ClusterStateView}
    {received : List (Nat × Nat)} (h : cv.BaselinesReceived received) :
    cv.nextLocalUpdateSeq.1.BaselinesReceived received := h

/-- Receiving `(o, n)` keeps the invariant with `(o, n)` recorded. -/
theorem BaselinesReceived.onRecieved {cv : ClusterStateView} {received : List (Nat × Nat)}
    (h : cv.BaselinesReceived received) (o n : Nat) :
    (cv.onRecievedCacheEntryFromOther o n).1.BaselinesReceived ((o, n) :: received) := by
  intro o' nv hnv s hs hsb
  rw [onRecieved_get] at hnv
  by_cases ho : o' = o
  · subst ho
    rw [if_pos rfl, Option.some.injEq] at hnv
    subst hnv
    have hold : ∀ s, 1 ≤ s →
        s ≤ ((cv.otherNodesUpdateSeqs.get o').getD NodeView.default).baselineSeq →
        (o', s) ∈ received := by
      cases hg : cv.otherNodesUpdateSeqs.get o' with
      | none => intro s hs hsb; simp [NodeView.default] at hsb; omega
      | some old => exact h o' old hg
    rcases NodeView.le_or_eq_of_le_baselineSeq_update hsb with h | rfl
    · exact List.mem_cons_of_mem _ (hold s hs h)
    · exact List.mem_cons_self _ _
  · rw [if_neg ho] at hnv
    exact List.mem_cons_of_mem _ (h o' nv hnv s hs hsb)

/-- **Gap detection.** If an update `(o, s)` with `1 ≤ s ≤ view[o]` of a remote origin `o` was
    never received, the gap requests `o` from a baseline below `s`. -/
theorem getOutOfSync_detects_missing {cv : ClusterStateView} {received : List (Nat × Nat)}
    (h : cv.BaselinesReceived received) (view : HashMap Nat Nat) (o s rb : Nat)
    (ho : o ≠ cv.localSequence.nodeId) (hs : 1 ≤ s) (hrb : view.get o = some rb) (hsrb : s ≤ rb)
    (hmiss : (o, s) ∉ received) :
    ∃ b, (cv.getOutOfSyncNodeIdAndBaselines view).get o = some b ∧ b < s := by
  have hlb : cv.localBaseline o < s := by
    unfold localBaseline
    cases hnv : cv.otherNodesUpdateSeqs.get o with
    | none => simpa using hs
    | some nv =>
      by_contra hge
      exact hmiss (h o nv hnv s hs (by simpa using hge))
  refine ⟨cv.localBaseline o, (getOutOfSync_get_eq_some_iff cv view o _).mpr
    ⟨rb, hrb, ho, rfl, .inl (by omega)⟩, hlb⟩

/-! ## Receiving a stream -/

/-- The view after receiving a stream of `(origin_node_id, origin_node_update_seq)`, in order. -/
def receiveAll (cv : ClusterStateView) (us : List (Nat × Nat)) : ClusterStateView :=
  us.foldl (fun cv u => (cv.onRecievedCacheEntryFromOther u.1 u.2).1) cv

/-- The sequence numbers of a stream that come from origin `o`, in order. -/
def seqsFrom (o : Nat) (us : List (Nat × Nat)) : List Nat :=
  us.filterMap fun u => if u.1 = o then some u.2 else none

/-- A stream replays the updates of each origin on that origin's `NodeView` (a default one if
    there was none), and leaves the `NodeView` of an origin it does not carry alone. -/
theorem get_receiveAll (cv : ClusterStateView) (us : List (Nat × Nat)) (o : Nat) :
    (cv.receiveAll us).otherNodesUpdateSeqs.get o =
      if seqsFrom o us = [] then cv.otherNodesUpdateSeqs.get o
      else some (((cv.otherNodesUpdateSeqs.get o).getD NodeView.default).updateAll
        (seqsFrom o us)) := by
  induction us generalizing cv with
  | nil => rfl
  | cons u us ih =>
    rw [receiveAll, List.foldl_cons, ← receiveAll, ih, onRecieved_get]
    by_cases hu : u.1 = o
    · subst hu
      have hs : seqsFrom u.1 (u :: us) = u.2 :: seqsFrom u.1 us := by simp [seqsFrom]
      by_cases hnil : seqsFrom u.1 us = [] <;> simp [hs, hnil]
    · have hs : seqsFrom o (u :: us) = seqsFrom o us := by simp [seqsFrom, hu]
      rw [hs, if_neg (Ne.symm hu)]

/-- A call that changes a `ClusterStateView`. -/
inductive ViewOp where
  | onRecievedCacheEntryFromOther (nodeId updateSeq : Nat)
  | nextLocalUpdateSeq
deriving DecidableEq, Repr

/-- The state after one call. -/
def applyOp (cv : ClusterStateView) : ViewOp → ClusterStateView
  | .onRecievedCacheEntryFromOther nodeId updateSeq =>
    (cv.onRecievedCacheEntryFromOther nodeId updateSeq).1
  | .nextLocalUpdateSeq => cv.nextLocalUpdateSeq.1

/-- The state after a sequence of calls. -/
def runOps (cv : ClusterStateView) (ops : List ViewOp) : ClusterStateView := ops.foldl applyOp cv

@[simp] theorem runOps_nil (cv : ClusterStateView) : cv.runOps [] = cv := rfl

@[simp] theorem runOps_cons (cv : ClusterStateView) (op : ViewOp) (ops : List ViewOp) :
    cv.runOps (op :: ops) = (cv.applyOp op).runOps ops := rfl

@[simp] theorem nodeId_runOps (cv : ClusterStateView) (ops : List ViewOp) :
    (cv.runOps ops).localSequence.nodeId = cv.localSequence.nodeId := by
  induction ops generalizing cv with
  | nil => rfl
  | cons op ops ih => cases op <;> simp [applyOp, ih]

/-- Every baseline is a `u64`. -/
def BaselinesBelow (cv : ClusterStateView) : Prop :=
  ∀ o nv, cv.otherNodesUpdateSeqs.get o = some nv → nv.baselineSeq < u64Size

theorem baselinesBelow_new (localNodeId : Nat) : (new localNodeId).BaselinesBelow := by
  intro o nv h
  simp [new] at h

theorem BaselinesBelow.applyOp {cv : ClusterStateView} (h : cv.BaselinesBelow) (op : ViewOp) :
    (cv.applyOp op).BaselinesBelow := by
  cases op with
  | nextLocalUpdateSeq => exact h
  | onRecievedCacheEntryFromOther nodeId updateSeq =>
    intro o nv hnv
    rw [ClusterStateView.applyOp, onRecieved_get] at hnv
    split at hnv
    · rw [Option.some.injEq] at hnv
      subst hnv
      refine NodeView.baselineSeq_update_lt _ _ ?_
      cases hg : cv.otherNodesUpdateSeqs.get nodeId with
      | none => decide
      | some old => exact h nodeId old hg
    · exact h o nv hnv

theorem BaselinesBelow.runOps {cv : ClusterStateView} (h : cv.BaselinesBelow) (ops : List ViewOp) :
    (cv.runOps ops).BaselinesBelow := by
  induction ops generalizing cv with
  | nil => exact h
  | cons op ops ih => exact ih (h.applyOp op)

/-- A call other than a receipt of `0` keeps every `NodeView` and lowers no baseline. -/
theorem le_baselineSeq_applyOp {cv : ClusterStateView} (h : cv.BaselinesBelow) (op : ViewOp)
    (hop : ∀ nodeId, op ≠ .onRecievedCacheEntryFromOther nodeId 0) (o : Nat) (nv : NodeView)
    (hnv : cv.otherNodesUpdateSeqs.get o = some nv) :
    ∃ nv', (cv.applyOp op).otherNodesUpdateSeqs.get o = some nv' ∧
      nv.baselineSeq ≤ nv'.baselineSeq := by
  cases op with
  | nextLocalUpdateSeq => exact ⟨nv, hnv, le_rfl⟩
  | onRecievedCacheEntryFromOther nodeId updateSeq =>
    have hn : 1 ≤ updateSeq := Nat.one_le_iff_ne_zero.mpr fun h0 => hop nodeId (by rw [h0])
    rw [ClusterStateView.applyOp, onRecieved_get]
    by_cases ho : o = nodeId
    · subst ho
      rw [if_pos rfl, hnv]
      exact ⟨_, rfl, (NodeView.baselineSeq_le_update nv updateSeq (h o nv hnv) hn).1⟩
    · rw [if_neg ho]
      exact ⟨nv, hnv, le_rfl⟩

/-- Over calls with no receipt of `0`, every `NodeView` stays and no baseline is lowered. -/
theorem le_baselineSeq_runOps (ops : List ViewOp)
    (hops : ∀ nodeId, ViewOp.onRecievedCacheEntryFromOther nodeId 0 ∉ ops) {cv : ClusterStateView}
    (h : cv.BaselinesBelow) (o : Nat) (nv : NodeView)
    (hnv : cv.otherNodesUpdateSeqs.get o = some nv) :
    ∃ nv', (cv.runOps ops).otherNodesUpdateSeqs.get o = some nv' ∧
      nv.baselineSeq ≤ nv'.baselineSeq := by
  induction ops generalizing cv nv with
  | nil => exact ⟨nv, hnv, le_rfl⟩
  | cons op ops ih =>
    obtain ⟨nv₁, h₁, hle₁⟩ := le_baselineSeq_applyOp h op
      (fun nodeId he => hops nodeId (he ▸ List.mem_cons_self _ _)) o nv hnv
    obtain ⟨nv', h', hle'⟩ := ih (fun nodeId hm => hops nodeId (List.mem_cons_of_mem _ hm))
      (h.applyOp op) nv₁ h₁
    exact ⟨nv', h', hle₁.trans hle'⟩

/-- **A replica's own snapshot shows no gap.** For every state reachable from
    `ClusterStateView::new`, the gap against its `as_map()` after any calls in which no sequence
    number `0` is received is empty. -/
theorem getOutOfSync_own_asMap_isEmpty (localNodeId : Nat) (pre mid : List ViewOp)
    (hmid : ∀ nodeId, ViewOp.onRecievedCacheEntryFromOther nodeId 0 ∉ mid) :
    ((((new localNodeId).runOps pre).runOps mid).getOutOfSyncNodeIdAndBaselines
      ((new localNodeId).runOps pre).asMap).isEmpty = true := by
  set cv := (new localNodeId).runOps pre
  have hcv : cv.BaselinesBelow := (baselinesBelow_new localNodeId).runOps pre
  refine (SkipMap.isEmpty_iff _).mpr fun j => ?_
  rw [get_getOutOfSyncNodeIdAndBaselines]
  cases hv : cv.asMap.get j with
  | none => rfl
  | some rb =>
    simp only [outOfSyncBaseline, nodeId_runOps]
    split
    · rfl
    · next hj =>
      rw [get_asMap] at hv
      cases hnv : cv.otherNodesUpdateSeqs.get j with
      | none => simp [hnv, hj] at hv
      | some nv =>
        rw [hnv, Option.some.injEq] at hv
        obtain ⟨nv', h', hle⟩ := le_baselineSeq_runOps mid hmid hcv j nv hnv
        simp [h', ← hv, Nat.not_lt.mpr hle]

theorem getOutOfSync_own_asMap_isEmpty_example :
    let cv := (new 0).runOps [.onRecievedCacheEntryFromOther 1 1, .nextLocalUpdateSeq]
    (∀ nodeId, ViewOp.onRecievedCacheEntryFromOther nodeId 0 ∉
        [.onRecievedCacheEntryFromOther 1 2, .nextLocalUpdateSeq]) ∧
      ((cv.runOps [.onRecievedCacheEntryFromOther 1 2, .nextLocalUpdateSeq]
        ).getOutOfSyncNodeIdAndBaselines cv.asMap).isEmpty = true :=
  ⟨fun _ h => by simp at h, getOutOfSync_own_asMap_isEmpty 0 _ _ fun _ h => by simp at h⟩

/-- The sequence numbers a stream of receipts from one origin carries from it. -/
theorem seqsFrom_map_pair (o : Nat) (ns : List Nat) : seqsFrom o (ns.map (o, ·)) = ns := by
  simp [seqsFrom, List.filterMap_map, Function.comp_def]

/-- A run of receipts from one origin is a stream of receipts. -/
theorem runOps_map_onRecieved (cv : ClusterStateView) (o : Nat) (ns : List Nat) :
    cv.runOps (ns.map (.onRecievedCacheEntryFromOther o)) = cv.receiveAll (ns.map (o, ·)) := by
  induction ns generalizing cv with
  | nil => rfl
  | cons n ns ih => exact ih _

/-- On a fresh view of replica `0` that received `ns` from origin `1`, a receipt of `n` from
    origin `1` that lowers its baseline to `b` opens a gap from `b` against the `as_map()` taken
    before it. -/
theorem getOutOfSync_own_asMap_of_lowered (ns : List Nat) (hns : ns ≠ []) (n b : Nat)
    (hb : ((NodeView.default.updateAll ns).update n).1.baselineSeq = b)
    (hlow : b < (NodeView.default.updateAll ns).baselineSeq) :
    ((((new 0).runOps (ns.map (.onRecievedCacheEntryFromOther 1))).runOps
      [.onRecievedCacheEntryFromOther 1 n]).getOutOfSyncNodeIdAndBaselines
      ((new 0).runOps (ns.map (.onRecievedCacheEntryFromOther 1))).asMap).get 1 = some b := by
  have hcv : ((new 0).runOps (ns.map (.onRecievedCacheEntryFromOther 1))).otherNodesUpdateSeqs.get 1
      = some (NodeView.default.updateAll ns) := by
    rw [runOps_map_onRecieved, get_receiveAll, seqsFrom_map_pair, if_neg hns]
    rfl
  have hid := nodeId_runOps (new 0) (ns.map (.onRecievedCacheEntryFromOther 1))
  rw [get_getOutOfSyncNodeIdAndBaselines, get_asMap, hcv]
  simp only [runOps_cons, runOps_nil, applyOp, outOfSyncBaseline, onRecieved_get, hcv,
    onRecieved_localSequence, hid]
  simp [new, LocalSequence.new, hb, hlow]

/-- Receiving `1, 2, …, u64::MAX` from origin `1` takes its baseline to `u64::MAX`; receiving `0`
    from it afterwards wraps the baseline to `0`, and the gap against the `as_map()` taken in
    between requests origin `1` from `0`. -/
theorem own_asMap_gap_after_wrap :
    let cv := (new 0).runOps ((List.range' 1 (u64Size - 1)).map (.onRecievedCacheEntryFromOther 1))
    ((cv.runOps [.onRecievedCacheEntryFromOther 1 0]).getOutOfSyncNodeIdAndBaselines
      cv.asMap).get 1 = some 0 := by
  have hmax : (NodeView.default.updateAll (List.range' 1 (u64Size - 1))).baselineSeq =
      u64Size - 1 :=
    NodeView.baselineSeq_updateAll_range' (u64Size - 1) NodeView.default (by decide)
  refine getOutOfSync_own_asMap_of_lowered _ (by simp [List.range'_eq_nil]; decide) 0 0 ?_
    (by rw [hmax]; decide)
  rw [NodeView.update_baselineSeq, hmax, if_pos (by decide)]

end ClusterStateView

end Clacheless
