import Clacheless.ClusterView
import Clacheless.LocalCache

set_option autoImplicit false

/-! # A replica: `DistributedCache`

A replica owns a `LocalCache`, a `ClusterStateView` and the liveness map from peer ordinal to the
clock of its last state-view push. Peers are addressed by ordinal: the address template maps an
ordinal to a host, and the model sends a message to the ordinal itself.

Every function that reads the clock takes it as `nowMicros`; every function that sends RPCs
returns the requests it sends as `Envelope`s. The peer RPCs are the three `Msg` constructors, and
`handle` is the server side of each: `put_cache_entry` runs `put_raw_from_remote_origin`,
`state_view_update` runs `on_state_view`, and `init_state_transfer` runs `transfer_state`, whose
spawned task streams `iter` of the local cache back to the requester.

`Event` is one step of a replica (a client write, the delivery of a request, one pass of a
background loop) and `run` a sequence of them in any order. Over every run from a fresh replica the
baselines stay backed by the updates actually delivered (`BaselinesReceived`), which is what makes
a missing update visible in the sync gap (`getOutOfSync_detects_missing_after_run`). -/

namespace Clacheless

/-- A request of the peer protocol. -/
inductive Msg where
  | putCacheEntry (key : String) (thisUpdateMicros expires : Nat) (objectBytes : List UInt8)
      (originNodeId originNodeUpdateSeq : Nat)
  | stateViewUpdate (senderNodeOrdinal : Nat) (view : HashMap Nat Nat)
  | initStateTransfer (recieverNodeOrdinal : Nat) (dataOriginIdAndBaseline : HashMap Nat Nat)
deriving DecidableEq

/-- The `(origin_node_id, origin_node_update_seq)` a request carries, if it is a
    `put_cache_entry`. -/
def Msg.update : Msg → Option (Nat × Nat)
  | .putCacheEntry _ _ _ _ originNodeId originNodeUpdateSeq =>
    some (originNodeId, originNodeUpdateSeq)
  | _ => none

/-- A request sent to the replica with ordinal `dest`. -/
structure Envelope where
  dest : Nat
  msg : Msg
deriving DecidableEq

/-- `DistributedCache` (the address template is replaced by ordinal addressing). -/
structure DistributedCache where
  localNodeOrdinal : Nat
  cacheItemTtlMicros : Nat
  localNodeId : Nat
  knownNodeOrdinalsWithLastSeen : SkipMap Nat Nat
  localCache : LocalCache
  clusterView : ClusterStateView

namespace DistributedCache

/-- `STATE_BROADCAST_INTERVAL_MICROS`. -/
def stateBroadcastIntervalMicros : Nat := 2000000

/-- `ALIVE_MARGIN_MICROS`. -/
def aliveMarginMicros : Nat := 500000

/-- `MAX_AGE_BEFORE_IGNORED_MICROS`. -/
def maxAgeBeforeIgnoredMicros : Nat := stateBroadcastIntervalMicros + aliveMarginMicros

/-- `DistributedCache::new` at clock `nowMicros`: the node id is
    `(now_seconds & 0xffff_ffff) << 32 | local_node_ordinal`. -/
def new (localNodeOrdinal cacheItemTtlMicros nowMicros : Nat) : DistributedCache :=
  let nowSeconds := nowMicros / 1000000
  let localNodeId := (nowSeconds &&& 0xffffffff) <<< 32 ||| localNodeOrdinal
  ⟨localNodeOrdinal, cacheItemTtlMicros, localNodeId, ∅, LocalCache.new,
    ClusterStateView.new localNodeId⟩

/-- `get_highest_known_node_ordinal`: the last (greatest) ordinal seen within the alive window,
    else the local one. -/
def getHighestKnownNodeOrdinal (dc : DistributedCache) (nowMicros : Nat) : Nat :=
  let lastSeenThreshold := wrappingSub nowMicros maxAgeBeforeIgnoredMicros
  (((dc.knownNodeOrdinalsWithLastSeen.entries.filter fun e => decide (e.2 > lastSeenThreshold)
    ).getLast?).map Prod.fst).getD dc.localNodeOrdinal

/-- The ordinals the broadcast loops address: `0..=highest` except the local one. -/
def otherNodeOrdinals (dc : DistributedCache) (nowMicros : Nat) : List Nat :=
  (List.range (dc.getHighestKnownNodeOrdinal nowMicros + 1)).filter (· ≠ dc.localNodeOrdinal)

/-- `broadcast_update`: a `put_cache_entry` to every addressed ordinal. -/
def broadcastUpdate (dc : DistributedCache) (nowMicros : Nat) (key : String)
    (thisUpdateMicros expires : Nat) (objectBytes : List UInt8) (originNodeId updateSeq : Nat) :
    List Envelope :=
  (dc.otherNodeOrdinals nowMicros).map fun nodeOrdinal =>
    ⟨nodeOrdinal, .putCacheEntry key thisUpdateMicros expires objectBytes originNodeId updateSeq⟩

/-- `put_bytes` at clock `nowMicros`: draw a sequence number, broadcast, then put locally. It
    returns `Ok(())` on every path; the model returns the new state and the broadcast. -/
def putBytes (dc : DistributedCache) (cacheKey : String) (cacheValue : List UInt8)
    (nowMicros : Nat) : DistributedCache × List Envelope :=
  let updateSeq := dc.clusterView.nextLocalUpdateSeq.2
  let thisUpdateMicros := nowMicros
  let expires := wrappingAdd thisUpdateMicros dc.cacheItemTtlMicros
  ({ dc with
      clusterView := dc.clusterView.nextLocalUpdateSeq.1
      localCache := dc.localCache.put cacheKey cacheValue thisUpdateMicros dc.localNodeId updateSeq
        expires },
    dc.broadcastUpdate nowMicros cacheKey thisUpdateMicros expires cacheValue dc.localNodeId
      updateSeq)

/-- `put_raw_from_remote_origin`: put, then update the origin's `NodeView`. -/
def putRawFromRemoteOrigin (dc : DistributedCache) (cacheKey : String) (cacheValue : List UInt8)
    (thisUpdateMicros expiresMicros originNodeId originNodeUpdateSeq : Nat) : DistributedCache :=
  { dc with
    localCache := dc.localCache.put cacheKey cacheValue thisUpdateMicros originNodeId
      originNodeUpdateSeq expiresMicros
    clusterView :=
      (dc.clusterView.onRecievedCacheEntryFromOther originNodeId originNodeUpdateSeq).1 }

/-- `get_bytes`. -/
def getBytes (dc : DistributedCache) (cacheKey : String) (nowMicros : Nat) :
    Except ClachelessError (List UInt8) :=
  dc.localCache.get cacheKey nowMicros

/-- `on_state_view` at clock `nowMicros`: record the sender as seen and, when the pushed view
    shows a gap, request a state transfer of it from the sender. -/
def onStateView (dc : DistributedCache) (senderOrdinal : Nat) (view : HashMap Nat Nat)
    (nowMicros : Nat) : DistributedCache × List Envelope :=
  let dataOriginIdAndBaseline := dc.clusterView.getOutOfSyncNodeIdAndBaselines view
  ({ dc with
      knownNodeOrdinalsWithLastSeen := dc.knownNodeOrdinalsWithLastSeen.insert senderOrdinal
        nowMicros },
    if dataOriginIdAndBaseline.isEmpty then []
    else [⟨senderOrdinal, .initStateTransfer dc.localNodeOrdinal dataOriginIdAndBaseline⟩])

/-- The `send_update` a state transfer makes for one yielded entry. -/
def transferEnvelope (recieverNodeOrdinal : Nat) (fcde : CacheEntryAndKey) : Envelope :=
  ⟨recieverNodeOrdinal, .putCacheEntry fcde.key fcde.ce.thisUpdateMicros fcde.ce.expiresMicros
    fcde.ce.objectBytes fcde.ce.originNodeId fcde.ce.originNodeUpdateSeq⟩

/-- `transfer_state` at clock `nowMicros`: the spawned task streams `iter` of the gap to the
    receiver, one `put_cache_entry` per entry (here with no write during the stream). -/
def transferState (dc : DistributedCache) (recieverNodeOrdinal : Nat)
    (dataOriginIdAndBaseline : HashMap Nat Nat) (nowMicros : Nat) : List Envelope :=
  (dc.localCache.iter dataOriginIdAndBaseline nowMicros).map (transferEnvelope recieverNodeOrdinal)

/-- One round of `notify_other_nodes`: push `as_map()` to every addressed ordinal. (Each push is a
    spawned task that reads `as_map()` when it runs; the model reads it when the round runs.) -/
def notifyOtherNodes (dc : DistributedCache) (nowMicros : Nat) : List Envelope :=
  (dc.otherNodeOrdinals nowMicros).map fun nodeOrdinal =>
    ⟨nodeOrdinal, .stateViewUpdate dc.localNodeOrdinal dc.clusterView.asMap⟩

/-- One pass of `remove_expired_other_nodes`. -/
def removeExpiredOtherNodes (dc : DistributedCache) (nowMicros : Nat) : DistributedCache :=
  { dc with
    knownNodeOrdinalsWithLastSeen := dc.knownNodeOrdinalsWithLastSeen.filter fun _ lastSeen =>
      !decide (lastSeen < wrappingSub nowMicros maxAgeBeforeIgnoredMicros) }

/-- The server side of a peer request. -/
def handle (dc : DistributedCache) (msg : Msg) (nowMicros : Nat) :
    DistributedCache × List Envelope :=
  match msg with
  | .putCacheEntry key thisUpdateMicros expires objectBytes originNodeId originNodeUpdateSeq =>
    (dc.putRawFromRemoteOrigin key objectBytes thisUpdateMicros expires originNodeId
      originNodeUpdateSeq, [])
  | .stateViewUpdate senderNodeOrdinal view => dc.onStateView senderNodeOrdinal view nowMicros
  | .initStateTransfer recieverNodeOrdinal dataOriginIdAndBaseline =>
    (dc, dc.transferState recieverNodeOrdinal dataOriginIdAndBaseline nowMicros)

/-! ## Receiving a state transfer -/

/-- The receiver of a stream of transferred entries puts each one and records its
    `(origin_node_id, origin_node_update_seq)`, in stream order. -/
theorem foldl_handle_transferEnvelope (dc : DistributedCache) (recieverNodeOrdinal : Nat)
    (xs : List CacheEntryAndKey) (nowMicros : Nat) :
    (xs.map (transferEnvelope recieverNodeOrdinal)).foldl
        (fun dc env => (dc.handle env.msg nowMicros).1) dc =
      { dc with
        localCache := dc.localCache.putAll (xs.map CacheEntryAndKey.putArgs)
        clusterView := dc.clusterView.receiveAll
          (xs.map fun x => (x.ce.originNodeId, x.ce.originNodeUpdateSeq)) } := by
  induction xs generalizing dc with
  | nil => rfl
  | cons x xs ih => exact ih _

/-! ## Read-your-writes -/

/-- The entry `put_bytes` leaves under its key: last-writer-wins of the incumbent and the entry it
    builds. -/
theorem get_putBytes (dc : DistributedCache) (k : String) (v : List UInt8) (nowMicros : Nat)
    (j : String) :
    (dc.putBytes k v nowMicros).1.localCache.cache.get j =
      if j = k then
        some (LocalCache.lww (dc.localCache.cache.get k) ⟨nowMicros, dc.localNodeId,
          dc.clusterView.nextLocalUpdateSeq.2, wrappingAdd nowMicros dc.cacheItemTtlMicros, v⟩)
      else dc.localCache.cache.get j :=
  LocalCache.get_put _ _ _ _ _ _ _ _

/-- A read right after a local write returns the written value, unless the replica held an entry
    for the key at least as new as the write's clock: `put_bytes` then keeps the incumbent. -/
theorem getBytes_putBytes (dc : DistributedCache) (k : String) (v : List UInt8)
    (nowMicros nowMicros' : Nat)
    (hexp : nowMicros' ≤ wrappingAdd nowMicros dc.cacheItemTtlMicros) :
    (dc.putBytes k v nowMicros).1.getBytes k nowMicros' =
      match dc.localCache.cache.get k with
      | some old => if old.thisUpdateMicros < nowMicros then .ok v else dc.getBytes k nowMicros'
      | none => .ok v := by
  simp only [putBytes, getBytes, LocalCache.get, LocalCache.get_put, if_pos rfl]
  cases dc.localCache.cache.get k with
  | none => simp [LocalCache.lww, Option.filter, hexp]
  | some old =>
    by_cases hlt : old.thisUpdateMicros < nowMicros
    · simp [LocalCache.lww, Option.filter, hlt, hexp]
    · simp [LocalCache.lww, hlt]

theorem getBytes_putBytes_example :
    (5 ≤ wrappingAdd 5 (DistributedCache.new 0 30000000 0).cacheItemTtlMicros) ∧
      ((DistributedCache.new 0 30000000 0).putBytes "k" [1] 5).1.getBytes "k" 5 = .ok [1] :=
  ⟨by decide, (getBytes_putBytes _ "k" [1] 5 5 (by decide)).trans rfl⟩

/-- Two writes of a key in one microsecond on a fresh replica: the read returns the first
    value. -/
theorem putBytes_same_micros_keeps_first :
    let dc := ((DistributedCache.new 0 30000000 0).putBytes "k" [1] 5).1
    (dc.putBytes "k" [2] 5).1.getBytes "k" 5 = .ok [1] := rfl

/-! ## Runs of one replica -/

/-- One step of a replica: a client write, the delivery of a peer request, or one pass of a
    background loop. -/
inductive Event where
  | putBytes (cacheKey : String) (cacheValue : List UInt8) (nowMicros : Nat)
  | deliver (msg : Msg) (nowMicros : Nat)
  | purgeExpired (nowMicros : Nat)
  | removeExpiredOtherNodes (nowMicros : Nat)

/-- The state after one step. -/
def step (dc : DistributedCache) : Event → DistributedCache
  | .putBytes cacheKey cacheValue nowMicros => (dc.putBytes cacheKey cacheValue nowMicros).1
  | .deliver msg nowMicros => (dc.handle msg nowMicros).1
  | .purgeExpired nowMicros => { dc with localCache := dc.localCache.purgeExpired nowMicros }
  | .removeExpiredOtherNodes nowMicros => dc.removeExpiredOtherNodes nowMicros

/-- The state after a run of steps. -/
def run (dc : DistributedCache) (evs : List Event) : DistributedCache := evs.foldl step dc

/-- The clock a step reads. -/
def Event.nowMicros : Event → Nat
  | .putBytes _ _ nowMicros | .deliver _ nowMicros | .purgeExpired nowMicros
  | .removeExpiredOtherNodes nowMicros => nowMicros

@[simp] theorem step_localNodeOrdinal (dc : DistributedCache) (ev : Event) :
    (dc.step ev).localNodeOrdinal = dc.localNodeOrdinal := by
  cases ev with
  | deliver msg _ => cases msg <;> rfl
  | _ => rfl

@[simp] theorem step_localNodeId (dc : DistributedCache) (ev : Event) :
    (dc.step ev).localNodeId = dc.localNodeId := by
  cases ev with
  | deliver msg _ => cases msg <;> rfl
  | _ => rfl

@[simp] theorem step_cacheItemTtlMicros (dc : DistributedCache) (ev : Event) :
    (dc.step ev).cacheItemTtlMicros = dc.cacheItemTtlMicros := by
  cases ev with
  | deliver msg _ => cases msg <;> rfl
  | _ => rfl

/-- Only a client write draws a sequence number. -/
theorem step_localSequence (dc : DistributedCache) (ev : Event) :
    (dc.step ev).clusterView.localSequence = dc.clusterView.localSequence ∨
      (dc.step ev).clusterView.localSequence = dc.clusterView.localSequence.generateNext.1 := by
  cases ev with
  | putBytes => exact .inr rfl
  | deliver msg _ => cases msg <;> exact .inl rfl
  | _ => exact .inl rfl

/-- The `(origin_node_id, origin_node_update_seq)` a step delivers, if it is a `put_cache_entry`. -/
def Event.received : Event → Option (Nat × Nat)
  | .deliver (.putCacheEntry _ _ _ _ originNodeId originNodeUpdateSeq) _ =>
    some (originNodeId, originNodeUpdateSeq)
  | _ => none

@[simp] theorem Event.received_deliver (msg : Msg) (nowMicros : Nat) :
    (Event.deliver msg nowMicros).received = msg.update := by
  cases msg <;> rfl

/-- What every step keeps: the cluster view's node id is the replica's, and every baseline is
    backed by delivered updates. -/
structure Inv (dc : DistributedCache) (received : List (Nat × Nat)) : Prop where
  nodeId : dc.clusterView.localSequence.nodeId = dc.localNodeId
  baselines : dc.clusterView.BaselinesReceived received

theorem inv_new (localNodeOrdinal cacheItemTtlMicros nowMicros : Nat) :
    Inv (new localNodeOrdinal cacheItemTtlMicros nowMicros) [] :=
  ⟨rfl, ClusterStateView.baselinesReceived_new _⟩

theorem Inv.mono {dc : DistributedCache} {received received' : List (Nat × Nat)}
    (h : Inv dc received) (hsub : received ⊆ received') : Inv dc received' :=
  ⟨h.nodeId, h.baselines.mono hsub⟩

theorem Inv.step {dc : DistributedCache} {received : List (Nat × Nat)} (h : Inv dc received)
    (ev : Event) : Inv (dc.step ev) (ev.received.toList ++ received) := by
  cases ev with
  | putBytes cacheKey cacheValue nowMicros =>
    exact ⟨h.nodeId, h.baselines.nextLocalUpdateSeq⟩
  | deliver msg nowMicros =>
    cases msg with
    | putCacheEntry key t e bytes o s =>
      exact ⟨h.nodeId, h.baselines.onRecieved o s⟩
    | stateViewUpdate _ _ => exact ⟨h.nodeId, h.baselines⟩
    | initStateTransfer _ _ => exact ⟨h.nodeId, h.baselines⟩
  | purgeExpired _ => exact ⟨h.nodeId, h.baselines⟩
  | removeExpiredOtherNodes _ => exact ⟨h.nodeId, h.baselines⟩

/-- Every run keeps the invariant, with the updates it delivered. -/
theorem Inv.run {dc : DistributedCache} {received : List (Nat × Nat)} (h : Inv dc received)
    (evs : List Event) : Inv (dc.run evs) (evs.filterMap Event.received ++ received) := by
  induction evs generalizing dc received with
  | nil => exact h
  | cons ev evs ih =>
    refine (ih (h.step ev)).mono fun x hx => ?_
    simp only [List.mem_append, List.filterMap_cons] at hx ⊢
    cases hr : ev.received <;>
      simp only [hr, Option.toList, List.mem_cons, List.nil_append, List.singleton_append]
        at hx ⊢ <;>
      tauto

/-- **No missing update goes undetected.** On every run of a fresh replica, if an update
    `(o, s)` with `1 ≤ s ≤ view[o]` of an origin other than the replica was never delivered, the
    sync gap of `view` requests `o` from a baseline below `s`. -/
theorem getOutOfSync_detects_missing_after_run (localNodeOrdinal cacheItemTtlMicros
    startMicros : Nat) (evs : List Event) (view : HashMap Nat Nat) (o s rb : Nat)
    (ho : o ≠ ((new localNodeOrdinal cacheItemTtlMicros startMicros).run evs).localNodeId)
    (hs : 1 ≤ s) (hrb : view.get o = some rb) (hsrb : s ≤ rb)
    (hmiss : (o, s) ∉ evs.filterMap Event.received) :
    ∃ b, (((new localNodeOrdinal cacheItemTtlMicros startMicros).run evs).clusterView
      |>.getOutOfSyncNodeIdAndBaselines view).get o = some b ∧ b < s := by
  have h := (inv_new localNodeOrdinal cacheItemTtlMicros startMicros).run evs
  rw [List.append_nil] at h
  exact ClusterStateView.getOutOfSync_detects_missing h.baselines view o s rb (h.nodeId ▸ ho) hs
    hrb hsrb hmiss

/-- Update `2` of origin `1` arrives before update `1`: the gap of a view advertising `2` asks
    for origin `1` from baseline `0`. -/
theorem getOutOfSync_detects_missing_after_run_example :
    let evs := [Event.deliver (.putCacheEntry "k" 10 20 [1] 1 2) 0]
    let view := (∅ : HashMap Nat Nat).insert 1 2
    1 ≠ ((new 0 0 0).run evs).localNodeId ∧ 1 ≤ 1 ∧ view.get 1 = some 2 ∧ 1 ≤ 2 ∧
      (1, 1) ∉ evs.filterMap Event.received ∧
      ∃ b, (((new 0 0 0).run evs).clusterView.getOutOfSyncNodeIdAndBaselines view).get 1 =
        some b ∧ b < 1 :=
  ⟨by decide, le_rfl, rfl, by decide, by decide,
    getOutOfSync_detects_missing_after_run 0 0 0 _ _ 1 1 2 (by decide) le_rfl rfl (by decide)
      (by decide)⟩

end DistributedCache

end Clacheless
