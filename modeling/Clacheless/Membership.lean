import Clacheless.Cluster
import Clacheless.Config

set_option autoImplicit false

/-! # Who the broadcasts address

A replica learns that another one is alive when that one pushes its view: `on_state_view` records
the sender's ordinal with the clock. `get_highest_known_node_ordinal` takes the greatest ordinal
seen after `now - MAX_AGE_BEFORE_IGNORED_MICROS`, or the replica's own ordinal when there is none,
and both broadcast loops address every ordinal from `0` to it except their own
(`otherNodeOrdinals`). So a replica seen alive receives every state view push and every write
(`alive_node_receives_broadcasts`), and the expiry loop, which drops only ordinals seen before the
alive window, changes no set of addressees at its clock or later
(`otherNodeOrdinals_removeExpiredOtherNodes`). Over a run of the cluster, an ordinal that checked
in at `t` stays addressed until the clock reaches `t + MAX_AGE_BEFORE_IGNORED_MICROS`, whatever
else happens (`checked_in_node_stays_addressed`).

The highest known ordinal is the replica's own or the sender of a push, so every ordinal a
cluster of `n` replicas ever addresses, and every receiver a transfer request names, is below
`n` (`Cluster.Addressed`): no request is sent to an ordinal with no replica behind it, and no
transfer task streams to one (`no_request_or_task_stuck`). Nor does a replica address itself: the
broadcast loops skip the local ordinal and `on_state_view` answers the pushing replica, so no
push, transfer request or transfer task names its own destination (`no_self_requests`).

The model addresses replicas by ordinal. The code addresses them by the address template with its
first `ORDINAL` replaced by the ordinal in decimal (`getAddressForNodeOrdinal`), and binds its
server to the port after the template's last `:` (`getAddressTemplatePort`). Ordinal addressing
is faithful because, as soon as the template names `ORDINAL`, distinct ordinals get distinct
addresses (`getAddressForNodeOrdinal_injective`), and, when the port follows a host part that names
`ORDINAL`, every address keeps that port, the one each server binds
(`template_port_bound_and_dialed`). -/

namespace Clacheless

theorem wrappingSub_of_le {a b : Nat} (h : b ≤ a) (ha : a < u64Size) : wrappingSub a b = a - b := by
  unfold wrappingSub
  rw [show a + u64Size - b = a - b + u64Size by omega, Nat.add_mod_right]
  exact Nat.mod_eq_of_lt (by omega)

/-- The ordinal a request names besides its destination: the sender of a state view push, the
    receiver of a state transfer. -/
def Msg.ordinal : Msg → Option Nat
  | .stateViewUpdate senderNodeOrdinal _ => some senderNodeOrdinal
  | .initStateTransfer recieverNodeOrdinal _ => some recieverNodeOrdinal
  | .putCacheEntry .. => none

/-- A request that names only replicas `0` to `n - 1`, as its destination and in its body. -/
def Envelope.Within (n : Nat) (env : Envelope) : Prop :=
  env.dest < n ∧ ∀ o, env.msg.ordinal = some o → o < n

/-- A request not addressed to the replica it names: a push is not sent back to its sender, a
    transfer request not to its requester. -/
def Envelope.ToOther (env : Envelope) : Prop :=
  ∀ o, env.msg.ordinal = some o → env.dest ≠ o

namespace DistributedCache

/-! ## The alive window -/

/-- The known ordinals `get_highest_known_node_ordinal` counts as alive at `nowMicros`. -/
theorem getHighestKnownNodeOrdinal_eq (dc : DistributedCache) (nowMicros : Nat) :
    dc.getHighestKnownNodeOrdinal nowMicros =
      (((dc.knownNodeOrdinalsWithLastSeen.filter fun _ lastSeen =>
        decide (lastSeen > wrappingSub nowMicros maxAgeBeforeIgnoredMicros)).entries.getLast?).map
          Prod.fst).getD dc.localNodeOrdinal := rfl

/-- Every ordinal seen alive is at most the highest known one. -/
theorem le_getHighestKnownNodeOrdinal (dc : DistributedCache) {nowMicros o lastSeen : Nat}
    (hseen : dc.knownNodeOrdinalsWithLastSeen.get o = some lastSeen)
    (halive : wrappingSub nowMicros maxAgeBeforeIgnoredMicros < lastSeen) :
    o ≤ dc.getHighestKnownNodeOrdinal nowMicros := by
  rw [getHighestKnownNodeOrdinal_eq]
  have hmem : (dc.knownNodeOrdinalsWithLastSeen.filter fun _ lastSeen =>
      decide (lastSeen > wrappingSub nowMicros maxAgeBeforeIgnoredMicros)).get o =
        some lastSeen := by
    simp [hseen, halive]
  cases hl : (dc.knownNodeOrdinalsWithLastSeen.filter fun _ lastSeen =>
      decide (lastSeen > wrappingSub nowMicros maxAgeBeforeIgnoredMicros)).entries.getLast? with
  | none =>
    rw [List.getLast?_eq_none_iff] at hl
    rw [← SkipMap.mem_entries_iff, hl] at hmem
    cases hmem
  | some last => exact SkipMap.le_of_getLast?_eq_some _ hmem hl

/-- An ordinal seen alive other than the replica's own is addressed by the broadcast loops. -/
theorem mem_otherNodeOrdinals_of_alive (dc : DistributedCache) {nowMicros o lastSeen : Nat}
    (hseen : dc.knownNodeOrdinalsWithLastSeen.get o = some lastSeen)
    (halive : wrappingSub nowMicros maxAgeBeforeIgnoredMicros < lastSeen)
    (hne : o ≠ dc.localNodeOrdinal) : o ∈ dc.otherNodeOrdinals nowMicros :=
  List.mem_filter.mpr ⟨List.mem_range.mpr
    (Nat.lt_succ_of_le (dc.le_getHighestKnownNodeOrdinal hseen halive)), decide_eq_true hne⟩

/-- **Every replica seen alive hears every broadcast.** An ordinal other than the replica's own
    that checked in within the alive window is sent the state view push of each round of
    `notify_other_nodes` and the `put_cache_entry` of each write. -/
theorem alive_node_receives_broadcasts (dc : DistributedCache) (nowMicros o lastSeen : Nat)
    (hseen : dc.knownNodeOrdinalsWithLastSeen.get o = some lastSeen)
    (halive : wrappingSub nowMicros maxAgeBeforeIgnoredMicros < lastSeen)
    (hne : o ≠ dc.localNodeOrdinal) (k : String) (v : List UInt8) :
    ⟨o, .stateViewUpdate dc.localNodeOrdinal dc.clusterView.asMap⟩ ∈
        dc.notifyOtherNodes nowMicros ∧
      ⟨o, .putCacheEntry k nowMicros (wrappingAdd nowMicros dc.cacheItemTtlMicros) v
        dc.localNodeId dc.clusterView.nextLocalUpdateSeq.2⟩ ∈ (dc.putBytes k v nowMicros).2 := by
  have ho := dc.mem_otherNodeOrdinals_of_alive hseen halive hne
  exact ⟨List.mem_map_of_mem _ ho, List.mem_map_of_mem _ ho⟩

/-- Replica `0` has just heard from replica `1`: both broadcasts reach it. -/
theorem alive_node_receives_broadcasts_example :
    let dc := ((new 0 10 3000000).onStateView 1 ∅ 3000000).1
    (dc.knownNodeOrdinalsWithLastSeen.get 1 = some 3000000 ∧
        wrappingSub 3000000 maxAgeBeforeIgnoredMicros < 3000000 ∧ 1 ≠ dc.localNodeOrdinal) ∧
      ⟨1, .stateViewUpdate dc.localNodeOrdinal dc.clusterView.asMap⟩ ∈
          dc.notifyOtherNodes 3000000 ∧
        ⟨1, .putCacheEntry "k" 3000000 (wrappingAdd 3000000 dc.cacheItemTtlMicros) [1]
          dc.localNodeId dc.clusterView.nextLocalUpdateSeq.2⟩ ∈
          (dc.putBytes "k" [1] 3000000).2 := by
  intro dc
  have hseen : dc.knownNodeOrdinalsWithLastSeen.get 1 = some 3000000 := by decide
  have halive : wrappingSub 3000000 maxAgeBeforeIgnoredMicros < 3000000 := by decide
  have hne : 1 ≠ dc.localNodeOrdinal := by decide
  exact ⟨⟨hseen, halive, hne⟩,
    alive_node_receives_broadcasts dc 3000000 1 3000000 hseen halive hne "k" [1]⟩

/-- **Pruning changes no addressee.** After a pass of `remove_expired_other_nodes` at a clock at
    least `MAX_AGE_BEFORE_IGNORED_MICROS`, the broadcasts at that clock or any later one below
    `2^64` address the same ordinals as without the pass: it drops only ordinals last seen before
    the alive window. -/
theorem otherNodeOrdinals_removeExpiredOtherNodes (dc : DistributedCache)
    (nowMicros nowMicros' : Nat) (hmax : maxAgeBeforeIgnoredMicros ≤ nowMicros)
    (hle : nowMicros ≤ nowMicros') (hlt : nowMicros' < u64Size) :
    (dc.removeExpiredOtherNodes nowMicros).otherNodeOrdinals nowMicros' =
      dc.otherNodeOrdinals nowMicros' := by
  have hwin : wrappingSub nowMicros maxAgeBeforeIgnoredMicros ≤
      wrappingSub nowMicros' maxAgeBeforeIgnoredMicros := by
    rw [wrappingSub_of_le hmax (by omega), wrappingSub_of_le (by omega) hlt]
    omega
  have hhigh : (dc.removeExpiredOtherNodes nowMicros).getHighestKnownNodeOrdinal nowMicros' =
      dc.getHighestKnownNodeOrdinal nowMicros' := by
    simp only [getHighestKnownNodeOrdinal, removeExpiredOtherNodes, SkipMap.filter,
      List.filter_filter]
    congr 3
    refine List.filter_congr fun e _ => ?_
    by_cases h : e.2 > wrappingSub nowMicros' maxAgeBeforeIgnoredMicros <;> simp [h]
    omega
  simp only [otherNodeOrdinals, hhigh]
  rfl

/-- Replica `0` heard from replica `2` at `1000000` and from replica `1` at `3000000`. A pass at
    `4000000` drops ordinal `2`, which the broadcasts at `5000000` no longer address anyway. -/
theorem otherNodeOrdinals_removeExpiredOtherNodes_example :
    let dc := (((new 0 10 1000000).onStateView 2 ∅ 1000000).1.onStateView 1 ∅ 3000000).1
    (dc.removeExpiredOtherNodes 4000000).knownNodeOrdinalsWithLastSeen.get 2 = none ∧
      (maxAgeBeforeIgnoredMicros ≤ 4000000 ∧ 4000000 ≤ 5000000 ∧ 5000000 < u64Size) ∧
      (dc.removeExpiredOtherNodes 4000000).otherNodeOrdinals 5000000 =
        dc.otherNodeOrdinals 5000000 := by
  intro dc
  have hmax : maxAgeBeforeIgnoredMicros ≤ 4000000 := by decide
  have hlt : 5000000 < u64Size := by decide
  exact ⟨by decide, ⟨hmax, by decide, hlt⟩,
    otherNodeOrdinals_removeExpiredOtherNodes dc 4000000 5000000 hmax (by decide) hlt⟩

/-- Within the alive window of a check-in at `t`, no step forgets the ordinal or records it as
    seen earlier than `t`: a later push records a later time, and the expiry pass keeps it. -/
theorem lastSeen_step {dc : DistributedCache} (ev : Event) {o lastSeen t : Nat}
    (hseen : dc.knownNodeOrdinalsWithLastSeen.get o = some lastSeen) (ht : t ≤ lastSeen)
    (hclock : t ≤ ev.nowMicros) (hmax : maxAgeBeforeIgnoredMicros ≤ ev.nowMicros)
    (hwin : ev.nowMicros < t + maxAgeBeforeIgnoredMicros) (hlt : ev.nowMicros < u64Size) :
    ∃ lastSeen', (dc.step ev).knownNodeOrdinalsWithLastSeen.get o = some lastSeen' ∧
      t ≤ lastSeen' := by
  cases ev with
  | deliver msg now =>
    cases msg with
    | stateViewUpdate s view =>
      show ∃ lastSeen', (dc.knownNodeOrdinalsWithLastSeen.insert s now).get o = some lastSeen' ∧ _
      rw [SkipMap.get_insert]
      split
      · exact ⟨now, rfl, hclock⟩
      · exact ⟨lastSeen, hseen, ht⟩
    | putCacheEntry => exact ⟨lastSeen, hseen, ht⟩
    | initStateTransfer => exact ⟨lastSeen, hseen, ht⟩
  | removeExpiredOtherNodes now =>
    simp only [Event.nowMicros] at hmax hwin hlt
    have hkeep : ¬ lastSeen < wrappingSub now maxAgeBeforeIgnoredMicros := by
      rw [wrappingSub_of_le hmax hlt]
      omega
    exact ⟨lastSeen, by simp [step, removeExpiredOtherNodes, hseen, hkeep], ht⟩
  | putBytes => exact ⟨lastSeen, hseen, ht⟩
  | purgeExpired => exact ⟨lastSeen, hseen, ht⟩

/-! ## Only replicas are addressed -/

/-- A replica of a cluster of `n`: its own ordinal and every ordinal it has seen are below
    `n`. -/
structure Within (n : Nat) (dc : DistributedCache) : Prop where
  ordinal : dc.localNodeOrdinal < n
  known : ∀ o lastSeen, dc.knownNodeOrdinalsWithLastSeen.get o = some lastSeen → o < n

section Within

variable {n : Nat} {dc : DistributedCache}

/-- The highest known ordinal is the replica's own or one it has seen. -/
theorem Within.getHighestKnownNodeOrdinal_lt (h : dc.Within n) (nowMicros : Nat) :
    dc.getHighestKnownNodeOrdinal nowMicros < n := by
  dsimp only [getHighestKnownNodeOrdinal]
  cases hl : (dc.knownNodeOrdinalsWithLastSeen.entries.filter fun e =>
      decide (e.2 > wrappingSub nowMicros maxAgeBeforeIgnoredMicros)).getLast? with
  | none => exact h.ordinal
  | some last =>
    have hmem := (List.mem_filter.mp (List.mem_of_getLast?_eq_some hl)).1
    exact h.known last.1 last.2 ((SkipMap.mem_entries_iff _ _ _).mp hmem)

theorem Within.lt_of_mem_otherNodeOrdinals (h : dc.Within n) {nowMicros o : Nat}
    (ho : o ∈ dc.otherNodeOrdinals nowMicros) : o < n := by
  have hle := List.mem_range.mp (List.mem_filter.mp ho).1
  have hlt := h.getHighestKnownNodeOrdinal_lt nowMicros
  omega

theorem transferEnvelope_within {r : Nat} (hr : r < n) (fcde : CacheEntryAndKey) :
    (transferEnvelope r fcde).Within n :=
  ⟨hr, fun _ ho => by cases ho⟩

/-- A write keeps the replica within the cluster and broadcasts only to replicas. -/
theorem Within.putBytes (h : dc.Within n) (k : String) (v : List UInt8) (nowMicros : Nat) :
    (dc.putBytes k v nowMicros).1.Within n ∧ ∀ env ∈ (dc.putBytes k v nowMicros).2, env.Within n :=
  ⟨⟨h.ordinal, h.known⟩, fun _ henv => by
    obtain ⟨o, ho, rfl⟩ := List.mem_map.mp henv
    exact ⟨h.lt_of_mem_otherNodeOrdinals ho, fun _ ho => by cases ho⟩⟩

/-- A state view push goes to replicas only and names the replica's own ordinal. -/
theorem Within.notifyOtherNodes (h : dc.Within n) (nowMicros : Nat) :
    ∀ env ∈ dc.notifyOtherNodes nowMicros, env.Within n := fun _ henv => by
  obtain ⟨o, ho, rfl⟩ := List.mem_map.mp henv
  exact ⟨h.lt_of_mem_otherNodeOrdinals ho, fun _ ho => by cases ho; exact h.ordinal⟩

/-- Handling a request that names a replica keeps the replica within the cluster and sends only
    to replicas: `on_state_view` records the sender and may ask it for a transfer to the replica
    itself, and a transfer goes to the receiver the request names. -/
theorem Within.handle (h : dc.Within n) {msg : Msg} (hmsg : ∀ o, msg.ordinal = some o → o < n)
    (nowMicros : Nat) :
    (dc.handle msg nowMicros).1.Within n ∧ ∀ env ∈ (dc.handle msg nowMicros).2, env.Within n := by
  cases msg with
  | putCacheEntry => exact ⟨⟨h.ordinal, h.known⟩, fun _ henv => by cases henv⟩
  | stateViewUpdate s view =>
    have hs := hmsg s rfl
    refine ⟨⟨h.ordinal, fun o lastSeen hseen => ?_⟩, fun env henv => ?_⟩
    · -- the push records its sender
      change (dc.knownNodeOrdinalsWithLastSeen.insert s nowMicros).get o = some lastSeen at hseen
      rw [SkipMap.get_insert] at hseen
      split at hseen
      · next hos => exact hos ▸ hs
      · exact h.known o lastSeen hseen
    · -- and may request a transfer from it
      simp only [DistributedCache.handle, onStateView] at henv
      split at henv
      · cases henv
      · rw [List.mem_singleton.mp henv]
        exact ⟨hs, fun _ ho => by cases ho; exact h.ordinal⟩
  | initStateTransfer r g =>
    refine ⟨h, fun env henv => ?_⟩
    obtain ⟨fcde, -, rfl⟩ := List.mem_map.mp henv
    exact transferEnvelope_within (hmsg r rfl) fcde

theorem Within.removeExpiredOtherNodes (h : dc.Within n) (nowMicros : Nat) :
    (dc.removeExpiredOtherNodes nowMicros).Within n :=
  ⟨h.ordinal, fun o lastSeen hseen => by
    simp only [DistributedCache.removeExpiredOtherNodes, SkipMap.get_filter,
      Option.filter_eq_some] at hseen
    exact h.known o lastSeen hseen.1⟩

end Within

/-! ## No replica addresses itself -/

theorem putBytes_toOther (dc : DistributedCache) (k : String) (v : List UInt8)
    (nowMicros : Nat) : ∀ env ∈ (dc.putBytes k v nowMicros).2, env.ToOther :=
  fun _ henv _ ho => by
    obtain ⟨_, -, rfl⟩ := List.mem_map.mp henv
    cases ho

theorem notifyOtherNodes_toOther (dc : DistributedCache) (nowMicros : Nat) :
    ∀ env ∈ dc.notifyOtherNodes nowMicros, env.ToOther := fun _ henv _ ho => by
  obtain ⟨o, ho', rfl⟩ := List.mem_map.mp henv
  cases ho
  exact of_decide_eq_true (List.mem_filter.mp ho').2

/-- A replica that handles a request not naming it sends none that names its destination: its
    transfer request goes back to the pushing replica and names the replica itself. -/
theorem handle_toOther (dc : DistributedCache) {msg : Msg}
    (hmsg : ∀ o, msg.ordinal = some o → dc.localNodeOrdinal ≠ o) (nowMicros : Nat) :
    ∀ env ∈ (dc.handle msg nowMicros).2, env.ToOther := by
  cases msg with
  | putCacheEntry => intro _ henv; cases henv
  | stateViewUpdate s view =>
    intro env henv
    simp only [DistributedCache.handle, onStateView] at henv
    split at henv
    · cases henv
    · rw [List.mem_singleton.mp henv]
      intro _ ho
      cases ho
      exact (hmsg s rfl).symm
  | initStateTransfer r g =>
    intro env henv _ ho
    obtain ⟨_, -, rfl⟩ := List.mem_map.mp henv
    cases ho

end DistributedCache

namespace Cluster

/-- **A replica that checked in stays addressed for the alive window.** If, in some state whose
    clock reads at least `MAX_AGE_BEFORE_IGNORED_MICROS`, replica `i` has seen ordinal `o` (not its
    own) at `t` or later, with `t` not after the clock, then after any run that keeps the clock
    below `t + MAX_AGE_BEFORE_IGNORED_MICROS` (and below `2^64`) the broadcast loops of replica `i`
    still address `o`: neither later pushes nor the expiry loop drop it. -/
theorem checked_in_node_stays_addressed {c c' : Cluster} (hrun : Reachable c c') {i : Nat}
    {dc : DistributedCache} (hdc : c.nodes[i]? = some dc) {o lastSeen t : Nat}
    (hseen : dc.knownNodeOrdinalsWithLastSeen.get o = some lastSeen) (ht : t ≤ lastSeen)
    (hclock : t ≤ c.nowMicros) (hmax : DistributedCache.maxAgeBeforeIgnoredMicros ≤ c.nowMicros)
    (hwin : c'.nowMicros < t + DistributedCache.maxAgeBeforeIgnoredMicros)
    (hlt : c'.nowMicros < u64Size) (hne : o ≠ dc.localNodeOrdinal) :
    ∃ dc' : DistributedCache, c'.nodes[i]? = some dc' ∧ o ∈ dc'.otherNodeOrdinals c'.nowMicros := by
  suffices h : ∃ (dc' : DistributedCache) (lastSeen' : Nat), c'.nodes[i]? = some dc' ∧
      dc'.localNodeOrdinal = dc.localNodeOrdinal ∧
      dc'.knownNodeOrdinalsWithLastSeen.get o = some lastSeen' ∧ t ≤ lastSeen' by
    obtain ⟨dc', lastSeen', hdc', hord, hseen', ht'⟩ := h
    refine ⟨dc', hdc', dc'.mem_otherNodeOrdinals_of_alive hseen' ?_ (hord ▸ hne)⟩
    have hrun_clock := nowMicros_le_of_reachable hrun
    rw [wrappingSub_of_le (hmax.trans hrun_clock) hlt]
    omega
  induction hrun with
  | refl => exact ⟨dc, lastSeen, hdc, rfl, hseen, ht⟩
  | tail hmid hstep ih =>
    obtain ⟨a, ha⟩ := hstep
    have hle := nowMicros_le_exec ha
    obtain ⟨dcb, lsb, hdcb, hordb, hseenb, htb⟩ := ih (by omega) (by omega)
    obtain ⟨dc', hdc', rfl | ⟨ev, rfl, hev⟩⟩ := node_of_exec ha hdcb
    · exact ⟨dc', lsb, hdc', hordb, hseenb, htb⟩
    · have hmid_clock := nowMicros_le_of_reachable hmid
      obtain ⟨ls', hls', ht'⟩ := DistributedCache.lastSeen_step ev hseenb htb (by omega)
        (by omega) (by omega) (by omega)
      exact ⟨_, ls', hdc', (DistributedCache.step_localNodeOrdinal dcb ev).trans hordb, hls', ht'⟩

/-- Replica `0` receives the push of replica `1` at `3000000`. A second later it prunes its
    peers, writes, broadcasts and pushes its view, which replica `1` handles; at `5000000` it still
    addresses replica `1`. -/
theorem checked_in_node_stays_addressed_example :
    let c := ((init 2 10 3000000).execAll [.notifyOtherNodes 1, .deliver 0]).getD (init 0 0 0)
    let dc := c.nodes[0]?.getD (DistributedCache.new 0 0 0)
    let c' := ((init 2 10 3000000).execAll ([.notifyOtherNodes 1, .deliver 0] ++
      [.tick 4000000, .removeExpiredOtherNodes 0, .putBytes 0 "k" [1], .notifyOtherNodes 0,
        .deliver 2, .tick 5000000])).getD (init 0 0 0)
    (Reachable c c' ∧ c.nodes[0]? = some dc ∧
        dc.knownNodeOrdinalsWithLastSeen.get 1 = some 3000000 ∧ 3000000 ≤ 3000000 ∧
        3000000 ≤ c.nowMicros ∧ DistributedCache.maxAgeBeforeIgnoredMicros ≤ c.nowMicros ∧
        c'.nowMicros < 3000000 + DistributedCache.maxAgeBeforeIgnoredMicros ∧
        c'.nowMicros < u64Size ∧ 1 ≠ dc.localNodeOrdinal) ∧
      ∃ dc' : DistributedCache, c'.nodes[0]? = some dc' ∧
        1 ∈ dc'.otherNodeOrdinals c'.nowMicros := by
  intro c dc c'
  have hrun : Reachable c c' := reachable_execAll_append _ _ [.notifyOtherNodes 1, .deliver 0]
    [.tick 4000000, .removeExpiredOtherNodes 0, .putBytes 0 "k" [1], .notifyOtherNodes 0,
      .deliver 2, .tick 5000000] (by decide)
  have hdc : c.nodes[0]? = some dc := rfl
  have hseen : dc.knownNodeOrdinalsWithLastSeen.get 1 = some 3000000 := by decide
  have hclock : 3000000 ≤ c.nowMicros := by decide
  have hmax : DistributedCache.maxAgeBeforeIgnoredMicros ≤ c.nowMicros := by decide
  have hwin : c'.nowMicros < 3000000 + DistributedCache.maxAgeBeforeIgnoredMicros := by decide
  have hlt : c'.nowMicros < u64Size := by decide
  have hne : 1 ≠ dc.localNodeOrdinal := by decide
  exact ⟨⟨hrun, hdc, hseen, le_rfl, hclock, hmax, hwin, hlt, hne⟩,
    checked_in_node_stays_addressed hrun hdc hseen le_rfl hclock hmax hwin hlt hne⟩

/-! ## No request or task is stuck -/

/-- Every ordinal in the cluster names one of its `n` replicas: each replica's own ordinal and
    the ordinals it has seen, each request's destination and the ordinal it carries, and the
    sender and the receiver of each transfer task. -/
structure Addressed (n : Nat) (c : Cluster) : Prop where
  nodes : ∀ dc ∈ c.nodes, dc.Within n
  sent : ∀ env ∈ c.sent, env.Within n
  tasks : ∀ t ∈ c.tasks, t.sender < n ∧ t.recieverNodeOrdinal < n

section Addressed

variable {n : Nat} {c c' : Cluster}

theorem addressed_init (n ttl start : Nat) : Addressed n (init n ttl start) where
  nodes dc h := by
    obtain ⟨i, hi, rfl⟩ := List.mem_map.mp h
    exact ⟨List.mem_range.mp hi, fun _ _ hseen => by cases hseen⟩
  sent _ h := by cases h
  tasks _ h := by cases h

theorem Addressed.setNode (ha : Addressed n c) {i : Nat} {dc : DistributedCache}
    (hdc : dc.Within n) {out : List Envelope} (hout : ∀ env ∈ out, env.Within n) :
    Addressed n (c.setNode i dc out) where
  nodes d hd := (List.mem_or_eq_of_mem_set hd).elim (ha.nodes d) (· ▸ hdc)
  sent env henv := (List.mem_append.mp henv).elim (ha.sent env) (hout env)
  tasks := ha.tasks

theorem Addressed.exec (ha : Addressed n c) {a : Action} (h : c.exec a = some c') :
    Addressed n c' := by
  cases execCase_of_exec h with
  | tick => exact ⟨ha.nodes, ha.sent, ha.tasks⟩
  | putBytes k v hdc =>
    have hw := (ha.nodes _ (List.getElem?_mem hdc)).putBytes k v c.nowMicros
    exact ha.setNode hw.1 hw.2
  | spawn henv hdc hm =>
    -- the task runs on the destination and streams to the receiver the request names
    obtain ⟨hdest, hmsg⟩ := ha.sent _ (List.getElem?_mem henv)
    refine ⟨ha.nodes, ha.sent, fun t ht => (List.mem_append.mp ht).elim (ha.tasks t) ?_⟩
    rintro (_ | ⟨_, ⟨⟩⟩)
    exact ⟨hdest, hmsg _ (by rw [hm]; rfl)⟩
  | handle henv hdc =>
    have hw := (ha.nodes _ (List.getElem?_mem hdc)).handle (ha.sent _ (List.getElem?_mem henv)).2
      c.nowMicros
    exact ha.setNode hw.1 hw.2
  | notifyOtherNodes hdc =>
    exact ⟨ha.nodes, fun env henv => (List.mem_append.mp henv).elim (ha.sent env)
      ((ha.nodes _ (List.getElem?_mem hdc)).notifyOtherNodes c.nowMicros env), ha.tasks⟩
  | purgeExpired hdc =>
    have hw := ha.nodes _ (List.getElem?_mem hdc)
    refine ha.setNode ?_ fun _ henv => ?_
    · exact ⟨hw.ordinal, hw.known⟩
    · cases henv
  | removeExpiredOtherNodes hdc =>
    refine ha.setNode ((ha.nodes _ (List.getElem?_mem hdc)).removeExpiredOtherNodes c.nowMicros)
      fun _ henv => ?_
    cases henv
  | collect ht =>
    have htw := ha.tasks _ (List.getElem?_mem ht)
    exact ⟨ha.nodes, ha.sent, fun t' ht' => (List.mem_or_eq_of_mem_set ht').elim (ha.tasks t')
      (· ▸ htw)⟩
  | yield ht =>
    -- a poll sends the entry it looks up to the task's receiver
    have htw := ha.tasks _ (List.getElem?_mem ht)
    refine ⟨ha.nodes, fun env henv => (List.mem_append.mp henv).elim (ha.sent env) fun henv => ?_,
      fun t' ht' => (List.mem_or_eq_of_mem_set ht').elim (ha.tasks t') (· ▸ htw)⟩
    obtain ⟨fcde, -, rfl⟩ := Option.map_eq_some'.mp (Option.mem_toList.mp henv)
    exact DistributedCache.transferEnvelope_within htw.2 fcde

theorem Addressed.reachable {ttl start : Nat} (hc : Reachable (init n ttl start) c) :
    Addressed n c :=
  hc.induction (addressed_init n ttl start) fun _ ha h => ha.exec h

end Addressed

/-- **No request or task is stuck.** In every state reachable from a fresh cluster of `n`
    replicas, every request sent can be delivered, and every transfer task with keys left to
    collect or to yield can be polled: the broadcasts address only ordinals up to the highest one
    seen, which is a replica's, and a transfer request names the replica that asked for it. -/
theorem no_request_or_task_stuck {n ttl start : Nat} {c : Cluster}
    (hc : Reachable (init n ttl start) c) :
    (∀ k, k < c.sent.length → ∃ c', c.exec (.deliver k) = some c') ∧
      ∀ j t, c.tasks[j]? = some t → t.keys ≠ some [] → ∃ c', c.exec (.poll j) = some c' := by
  have hlen := (Fixed.reachable hc).length
  have ha := Addressed.reachable hc
  have hnode : ∀ o, o < n → ∃ dc, c.nodes[o]? = some dc := fun o ho =>
    ⟨_, List.getElem?_eq_getElem (hlen ▸ ho)⟩
  refine ⟨fun k hk => ?_, fun j t ht hkeys => ?_⟩
  · obtain ⟨dc, hdc⟩ := hnode _ (ha.sent _ (List.getElem_mem hk)).1
    simp [exec, List.getElem?_eq_getElem hk, deliver, hdc]
  · obtain ⟨dc, hdc⟩ := hnode _ (ha.tasks t (List.getElem?_mem ht)).1
    simp only [exec, poll, ht, hdc, Option.some_bind]
    split
    · exact ⟨_, rfl⟩
    · contradiction
    · exact ⟨_, rfl⟩

/-- Replica `1` has pushed its view to replica `0`. -/
theorem no_request_or_task_stuck_example :
    let c := ((init 2 10 3000000).execAll [.notifyOtherNodes 1]).getD (init 0 0 0)
    Reachable (init 2 10 3000000) c ∧
      (∀ k, k < c.sent.length → ∃ c', c.exec (.deliver k) = some c') ∧
        ∀ j t, c.tasks[j]? = some t → t.keys ≠ some [] → ∃ c', c.exec (.poll j) = some c' := by
  intro c
  have hc : Reachable (init 2 10 3000000) c := reachable_of_execAll _ [.notifyOtherNodes 1] _ rfl
  exact ⟨hc, no_request_or_task_stuck hc⟩


/-! ## No replica talks to itself -/

/-- No request is addressed to the replica it names, and no transfer task streams to the replica
    it runs on. -/
structure NoSelfRequests (c : Cluster) : Prop where
  sent : ∀ env ∈ c.sent, env.ToOther
  tasks : ∀ t ∈ c.tasks, t.sender ≠ t.recieverNodeOrdinal

section NoSelfRequests

variable {n ttl start : Nat} {c c' : Cluster}

theorem NoSelfRequests.exec (hs : NoSelfRequests c) (hf : Fixed n ttl start c) {a : Action}
    (h : c.exec a = some c') : NoSelfRequests c' := by
  have hsent : ∀ {out : List Envelope}, (∀ env ∈ out, env.ToOther) →
      ∀ env ∈ c.sent ++ out, env.ToOther := fun hout env henv =>
    (List.mem_append.mp henv).elim (hs.sent env) (hout env)
  cases execCase_of_exec h with
  | tick => exact ⟨hs.sent, hs.tasks⟩
  | putBytes k v => exact ⟨hsent (DistributedCache.putBytes_toOther _ k v _), hs.tasks⟩
  | spawn henv hdc hm =>
    -- the task runs on the request's destination and streams to the requester it names
    refine ⟨hs.sent, fun t ht => (List.mem_append.mp ht).elim (hs.tasks t) ?_⟩
    rintro (_ | ⟨_, ⟨⟩⟩)
    exact hs.sent _ (List.getElem?_mem henv) _ (by rw [hm]; rfl)
  | handle henv hdc =>
    -- the destination is the replica with that ordinal, which the request does not name
    have hord := (hf.node _ _ hdc).1
    exact ⟨hsent (DistributedCache.handle_toOther _ (fun o ho => by
      rw [hord]; exact hs.sent _ (List.getElem?_mem henv) o ho) _), hs.tasks⟩
  | notifyOtherNodes => exact ⟨hsent (DistributedCache.notifyOtherNodes_toOther _ _), hs.tasks⟩
  | purgeExpired | removeExpiredOtherNodes =>
    exact ⟨hsent (fun _ henv => by cases henv), hs.tasks⟩
  | collect ht =>
    have htw := hs.tasks _ (List.getElem?_mem ht)
    exact ⟨hs.sent, fun t' ht' => (List.mem_or_eq_of_mem_set ht').elim (hs.tasks t') (· ▸ htw)⟩
  | yield ht =>
    have htw := hs.tasks _ (List.getElem?_mem ht)
    refine ⟨hsent (fun env henv _ ho => ?_),
      fun t' ht' => (List.mem_or_eq_of_mem_set ht').elim (hs.tasks t') (· ▸ htw)⟩
    obtain ⟨_, -, rfl⟩ := Option.map_eq_some'.mp (Option.mem_toList.mp henv)
    cases ho

theorem NoSelfRequests.reachable (hc : Reachable (init n ttl start) c) : NoSelfRequests c :=
  hc.induction ⟨(fun _ h => by cases h), fun _ h => by cases h⟩ fun hmid hs ha =>
    hs.exec (Fixed.reachable hmid) ha

end NoSelfRequests

/-- **No replica talks to itself.** In every state reachable from a fresh cluster, no state view
    push is addressed to the ordinal it names as its sender, no transfer request to the ordinal
    it names as the requester, and no transfer task streams to the replica it runs on. -/
theorem no_self_requests {n ttl start : Nat} {c : Cluster}
    (hc : Reachable (init n ttl start) c) :
    (∀ env ∈ c.sent, ∀ o, env.msg.ordinal = some o → env.dest ≠ o) ∧
      ∀ t ∈ c.tasks, t.sender ≠ t.recieverNodeOrdinal :=
  ⟨(NoSelfRequests.reachable hc).sent, (NoSelfRequests.reachable hc).tasks⟩

/-- Replica `1` writes and pushes its view; replica `0` requests the gap and replica `1` spawns the
    transfer task. -/
theorem no_self_requests_example :
    let c := ((init 2 30000000 0).execAll
      [.tick 10000000, .putBytes 1 "k" [1], .notifyOtherNodes 1, .deliver 1, .deliver 2]).getD
        (init 0 0 0)
    Reachable (init 2 30000000 0) c ∧
      (∀ env ∈ c.sent, ∀ o, env.msg.ordinal = some o → env.dest ≠ o) ∧
        ∀ t ∈ c.tasks, t.sender ≠ t.recieverNodeOrdinal := by
  intro c
  have hc : Reachable (init 2 30000000 0) c := reachable_of_execAll _
    [.tick 10000000, .putBytes 1 "k" [1], .notifyOtherNodes 1, .deliver 1, .deliver 2] _ rfl
  exact ⟨hc, no_self_requests hc⟩

end Cluster

namespace DistributedCache

/-! ## Addresses -/

/-- `str::replacen(pat, to, 1)` on characters: the first occurrence of `pat` replaced by
    `replacement`. -/
def replaceFirst (pat replacement : List Char) : List Char → List Char
  | [] => if pat.isEmpty then replacement else []
  | c :: cs =>
    if pat.isPrefixOf (c :: cs) then replacement ++ (c :: cs).drop pat.length
    else c :: replaceFirst pat replacement cs

/-- `get_address_for_node_ordinal`: the template with its first `ORDINAL` replaced by the
    ordinal in decimal. -/
def getAddressForNodeOrdinal (addressTemplate : String) (nodeOrdinal : Nat) : String :=
  ⟨replaceFirst "ORDINAL".toList (toString nodeOrdinal).toList addressTemplate.toList⟩

/-- `get_address_template_port`: the text after the template's last `:` parsed as a `u16`, else
    `9000`. -/
def getAddressTemplatePort (addressTemplate : String) : Nat :=
  ((afterLast ':' addressTemplate.toList).bind fun portString =>
    parseUnsigned 65536 ⟨portString⟩).getD 9000

/-- Where the pattern occurs, `replaceFirst` keeps the text around its first occurrence, whatever
    it puts in its place. -/
theorem replaceFirst_split (pat s : List Char) (h : pat <:+: s) :
    ∃ pre post, ∀ replacement, replaceFirst pat replacement s = pre ++ replacement ++ post := by
  induction s with
  | nil =>
    obtain rfl := List.infix_nil.mp h
    exact ⟨[], [], fun _ => by simp [replaceFirst]⟩
  | cons c cs ih =>
    by_cases hp : pat.isPrefixOf (c :: cs)
    · exact ⟨[], (c :: cs).drop pat.length, fun _ => by simp [replaceFirst, hp]⟩
    · have hcs : pat <:+: cs :=
        (List.infix_cons_iff.mp h).resolve_left fun h' => hp (List.isPrefixOf_iff_prefix.mpr h')
      obtain ⟨pre, post, hsplit⟩ := ih hcs
      exact ⟨c :: pre, post, fun _ => by simp [replaceFirst, hp, hsplit]⟩

/-- Text after an occurrence of the pattern is left as it is. -/
theorem replaceFirst_append (pat replacement xs ys : List Char) (h : pat <:+: xs) :
    replaceFirst pat replacement (xs ++ ys) = replaceFirst pat replacement xs ++ ys := by
  induction xs with
  | nil =>
    obtain rfl := List.infix_nil.mp h
    cases ys <;> simp [replaceFirst]
  | cons c cs ih =>
    rw [List.cons_append]
    by_cases hp : pat.isPrefixOf (c :: cs)
    · -- the occurrence starts here and ends within `c :: cs`
      have hpre := List.isPrefixOf_iff_prefix.mp hp
      have hp' : pat.isPrefixOf (c :: (cs ++ ys)) :=
        List.isPrefixOf_iff_prefix.mpr (hpre.trans (List.prefix_append _ ys))
      rw [replaceFirst, if_pos hp', replaceFirst, if_pos hp, ← List.cons_append,
        List.drop_append_of_le_length hpre.length_le, List.append_assoc]
    · -- it does not start here, so it does not start here in the longer text either
      have hcs : pat <:+: cs :=
        (List.infix_cons_iff.mp h).resolve_left fun h' => hp (List.isPrefixOf_iff_prefix.mpr h')
      have hp' : ¬ pat.isPrefixOf (c :: (cs ++ ys)) := fun h' =>
        hp (List.isPrefixOf_iff_prefix.mpr (List.prefix_of_prefix_length_le
          (List.isPrefixOf_iff_prefix.mp h') (List.prefix_append (c :: cs) ys) h.length_le))
      rw [replaceFirst, if_neg hp', replaceFirst, if_neg hp, ih hcs, List.cons_append]

/-- Decimal renderings of distinct naturals are distinct. -/
theorem toDigits_injective : Function.Injective (Nat.toDigits 10) := by
  have hparse : ∀ k b, k < b → parseDigits b 0 (Nat.toDigits 10 k) = some k := fun k b hk =>
    parseDigits_toDigitsCore b (k + 1) k [] (Nat.lt_succ_self k) hk
  intro n m h
  have hn := hparse n (n + m + 1) (by omega)
  rw [h, hparse m (n + m + 1) (by omega), Option.some.injEq] at hn
  exact hn.symm

/-- **Ordinal addressing is faithful.** When the address template names `ORDINAL`, distinct
    ordinals get distinct addresses. -/
theorem getAddressForNodeOrdinal_injective (addressTemplate : String)
    (h : "ORDINAL".toList <:+: addressTemplate.toList) :
    Function.Injective (getAddressForNodeOrdinal addressTemplate) := by
  intro n m hnm
  obtain ⟨pre, post, hsplit⟩ := replaceFirst_split _ _ h
  have hdigits : pre ++ Nat.toDigits 10 n ++ post = pre ++ Nat.toDigits 10 m ++ post := by
    rw [← hsplit, ← hsplit]
    exact congrArg String.toList hnm
  rw [List.append_assoc, List.append_assoc, List.append_cancel_left_eq,
    List.append_cancel_right_eq] at hdigits
  exact toDigits_injective hdigits

/-- The default template of `address_template`. -/
theorem getAddressForNodeOrdinal_injective_example :
    "ORDINAL".toList <:+: (Config.addressTemplate none).toList ∧
      Function.Injective (getAddressForNodeOrdinal (Config.addressTemplate none)) :=
  have h : "ORDINAL".toList <:+: (Config.addressTemplate none).toList :=
    ⟨"statefulsetname-".toList, ".headlessservicename.namespace.svc:9090".toList, rfl⟩
  ⟨h, getAddressForNodeOrdinal_injective _ h⟩

/-- **Peers dial the port every replica listens on.** For a template `pre:p` whose host part names
    `ORDINAL`, with `p` a `u16`, `get_address_template_port` binds the server to `p`, and the
    address of every ordinal is the host part with the ordinal in place, followed by `:p`. -/
theorem template_port_bound_and_dialed (pre : String) (p : Nat) (hp : p < 65536)
    (hord : "ORDINAL".toList <:+: pre.toList) (o : Nat) :
    getAddressTemplatePort (pre ++ ":" ++ toString p) = p ∧
      getAddressForNodeOrdinal (pre ++ ":" ++ toString p) o =
        getAddressForNodeOrdinal pre o ++ ":" ++ toString p := by
  have htl : (pre ++ ":" ++ toString p).toList = pre.toList ++ ':' :: Nat.toDigits 10 p :=
    List.append_assoc _ _ _
  have hcolon : ':' ∉ Nat.toDigits 10 p := fun h =>
    absurd (toDigit_isSome_of_mem_toDigits p _ h) (by decide)
  constructor
  · rw [getAddressTemplatePort, htl, afterLast_append_sep _ _ _ hcolon, Option.some_bind,
      parseUnsigned_toDigits _ _ hp]
    rfl
  · rw [getAddressForNodeOrdinal, getAddressForNodeOrdinal, htl, replaceFirst_append _ _ _ _ hord]
    exact congrArg String.mk (List.append_assoc _ [':'] _).symm

/-- The default template binds `9090`, and replica `3` is dialed on it. -/
theorem template_port_bound_and_dialed_example :
    let pre := "statefulsetname-ORDINAL.headlessservicename.namespace.svc"
    (9090 < 65536 ∧ "ORDINAL".toList <:+: pre.toList) ∧
      getAddressTemplatePort (pre ++ ":" ++ toString 9090) = 9090 ∧
        getAddressForNodeOrdinal (pre ++ ":" ++ toString 9090) 3 =
          getAddressForNodeOrdinal pre 3 ++ ":" ++ toString 9090 := by
  intro pre
  have hord : "ORDINAL".toList <:+: pre.toList :=
    ⟨"statefulsetname-".toList, ".headlessservicename.namespace.svc".toList, rfl⟩
  exact ⟨⟨by decide, hord⟩, template_port_bound_and_dialed pre 9090 (by decide) hord 3⟩

end DistributedCache

end Clacheless
