import Clacheless.Cluster
import Clacheless.Config

set_option autoImplicit false

/-! # What no interleaving breaks

The entries of a cluster are those its replicas hold and those its sent `put_cache_entry`
requests carry (`Cluster.entries`). Entries are only ever copied: a delivery stores the entry its
request carries, a transfer task sends an entry its sender holds, and the one action that makes a
new entry is `put_bytes`, which stores it and broadcasts it (`mem_entries_exec`).

So every property of the entry `put_bytes` builds holds of every entry in every reachable state.
Its `expires_micros` is its `this_update_micros` plus the time to live, and no copy renews it
(`entries_keep_writer_expiry`). Since a replica replaces an entry only by a newer one, and a newer
entry expires no earlier, the entry a replica holds for a key is replaced only by newer ones until
the clock passes its expiry, whatever is delivered late or again (`get_newer_or_expired`; this
compares stamps of one replica with the clock of another, which the model's one clock makes
meaningful).

An entry carries the writer's node id and the sequence number the writer just drew, so as long as
no replica has drawn `u64::MAX` sequence numbers every entry comes from a replica of the cluster
with a number that replica has drawn (`entries_written_by_origin`), the causal coordinate
`(origin_node_id, origin_node_update_seq)` identifies an entry across the whole cluster
(`entries_coordinates_unique`), and no replica's baseline for an origin runs ahead of that
origin's counter (`baselineSeq_le_origin_current`). The coordinate is unique because no entry
naming a replica's node id carries a number that replica has not drawn (`Fresh`), so the one
`put_bytes` writes is new.

The node ids tell replicas apart because `init` gives replica `i` the ordinal `i`, the low 32 bits
of its node id, and no action changes a replica's ordinal, node id or time to live
(`Cluster.Fixed`). -/

namespace Clacheless

/-- The entry a `put_cache_entry` request carries, under its key. -/
def Msg.entry : Msg → Option (String × CacheEntry)
  | .putCacheEntry key thisUpdateMicros expires objectBytes originNodeId originNodeUpdateSeq =>
    some (key, ⟨thisUpdateMicros, originNodeId, originNodeUpdateSeq, expires, objectBytes⟩)
  | _ => none

/-! ## Where an entry can come from -/

namespace LocalCache

/-- A `put` adds at most the entry it builds. -/
theorem mem_entries_put {lc : LocalCache} {k : String} {v : List UInt8} {t o s e : Nat}
    {x : String × CacheEntry} (hx : x ∈ (lc.put k v t o s e).cache.entries) :
    x ∈ lc.cache.entries ∨ x = (k, ⟨t, o, s, e, v⟩) := by
  obtain ⟨j, w⟩ := x
  rw [SkipMap.mem_entries_iff, get_put] at hx
  rw [SkipMap.mem_entries_iff]
  split at hx
  · next hj =>
    subst hj
    rw [Option.some.injEq] at hx
    subst hx
    cases hold : lc.cache.get j with
    | none => exact .inr rfl
    | some old =>
      simp only [lww]
      split
      · exact .inr rfl
      · exact .inl rfl
  · exact .inl hx

/-- A `put` never makes the entry of a key older. -/
theorem get_put_newer {lc : LocalCache} {k : String} {e : CacheEntry}
    (he : lc.cache.get k = some e) (k' : String) (v : List UInt8) (t o s ex : Nat) :
    ∃ e', (lc.put k' v t o s ex).cache.get k = some e' ∧
      e.thisUpdateMicros ≤ e'.thisUpdateMicros := by
  rw [get_put]
  split
  · next hk =>
    subst hk
    rw [he]
    exact ⟨_, rfl, (le_lww_thisUpdateMicros _ _).2 e rfl⟩
  · exact ⟨e, he, le_rfl⟩

theorem mem_entries_purgeExpired {lc : LocalCache} {nowMicros : Nat} {x : String × CacheEntry}
    (hx : x ∈ (lc.purgeExpired nowMicros).cache.entries) : x ∈ lc.cache.entries :=
  (List.filter_sublist _).subset hx

end LocalCache

namespace DistributedCache

/-- The entry `put_bytes` at clock `nowMicros` builds, under its key. -/
def putBytesEntry (dc : DistributedCache) (cacheKey : String) (cacheValue : List UInt8)
    (nowMicros : Nat) : String × CacheEntry :=
  (cacheKey, ⟨nowMicros, dc.localNodeId, dc.clusterView.nextLocalUpdateSeq.2,
    wrappingAdd nowMicros dc.cacheItemTtlMicros, cacheValue⟩)

/-- `put_bytes` stores at most the entry it builds. -/
theorem mem_entries_putBytes {dc : DistributedCache} {k : String} {v : List UInt8}
    {nowMicros : Nat} {x : String × CacheEntry}
    (hx : x ∈ (dc.putBytes k v nowMicros).1.localCache.cache.entries) :
    x ∈ dc.localCache.cache.entries ∨ x = dc.putBytesEntry k v nowMicros :=
  LocalCache.mem_entries_put hx

/-- Every request `put_bytes` broadcasts carries the entry it builds. -/
theorem entry_of_mem_putBytes {dc : DistributedCache} {k : String} {v : List UInt8}
    {nowMicros : Nat} {x : String × CacheEntry}
    (hx : x ∈ (dc.putBytes k v nowMicros).2.filterMap fun env => env.msg.entry) :
    x = dc.putBytesEntry k v nowMicros := by
  simp only [putBytes, broadcastUpdate, List.filterMap_map, List.mem_filterMap,
    Function.comp_apply, Msg.entry, Option.some.injEq] at hx
  obtain ⟨_, -, rfl⟩ := hx
  rfl

theorem onStateView_entries (dc : DistributedCache) (senderOrdinal : Nat)
    (view : HashMap Nat Nat) (nowMicros : Nat) :
    (dc.onStateView senderOrdinal view nowMicros).2.filterMap (fun env => env.msg.entry) = [] := by
  dsimp only [onStateView]
  split <;> rfl

theorem notifyOtherNodes_entries (dc : DistributedCache) (nowMicros : Nat) :
    (dc.notifyOtherNodes nowMicros).filterMap (fun env => env.msg.entry) = [] := by
  simp [notifyOtherNodes, List.filterMap_map, Function.comp_def, Msg.entry]

theorem transferEnvelope_entry (recieverNodeOrdinal : Nat) (fcde : CacheEntryAndKey) :
    (transferEnvelope recieverNodeOrdinal fcde).msg.entry = some (fcde.key, fcde.ce) := rfl

/-- Handling a request stores at most the entry it carries. -/
theorem mem_entries_handle {dc : DistributedCache} {msg : Msg} {nowMicros : Nat}
    {x : String × CacheEntry} (hx : x ∈ (dc.handle msg nowMicros).1.localCache.cache.entries) :
    x ∈ dc.localCache.cache.entries ∨ msg.entry = some x := by
  cases msg with
  | putCacheEntry => exact (LocalCache.mem_entries_put hx).imp_right fun h => by subst h; rfl
  | stateViewUpdate | initStateTransfer => exact .inl hx

/-- A handled request other than a transfer request sends no entry. -/
theorem handle_entries (dc : DistributedCache) {msg : Msg} (nowMicros : Nat)
    (hm : ∀ r g, msg ≠ .initStateTransfer r g) :
    (dc.handle msg nowMicros).2.filterMap (fun env => env.msg.entry) = [] := by
  cases msg with
  | putCacheEntry => rfl
  | stateViewUpdate s view => exact onStateView_entries dc s view nowMicros
  | initStateTransfer r g => exact absurd rfl (hm r g)

/-- A yielded key sends the entry the sender holds under it. -/
theorem entry_of_mem_lookupForTransfer {lc : LocalCache} {k : String} {r : Nat}
    {x : String × CacheEntry} (hx : x ∈ ((lc.lookupForTransfer k).map
      (transferEnvelope r)).toList.filterMap fun env => env.msg.entry) :
    x ∈ lc.cache.entries := by
  cases hl : lc.lookupForTransfer k with
  | none => simp [hl] at hx
  | some y =>
    obtain ⟨ce, hce, rfl⟩ := Option.map_eq_some'.mp hl
    simp [hl, transferEnvelope_entry] at hx
    exact hx ▸ (SkipMap.mem_entries_iff _ _ _).mpr hce

/-- Before the counter wraps, the number `put_bytes` draws is one past the last one. -/
theorem nextLocalUpdateSeq_of_lt {dc : DistributedCache}
    (hb : dc.clusterView.localSequence.current + 1 < u64Size) :
    dc.clusterView.nextLocalUpdateSeq.2 = dc.clusterView.localSequence.current + 1 :=
  wrappingAdd_one_of_lt hb

/-- No step raises the counter by more than one. -/
theorem current_step_le (dc : DistributedCache) (ev : Event) :
    (dc.step ev).clusterView.localSequence.current ≤ dc.clusterView.localSequence.current + 1 := by
  rcases step_localSequence dc ev with h | h <;> rw [h]
  · exact Nat.le_succ _
  · exact wrappingAdd_le _ _

/-- A step replaces a replica's entry for a key only by one at least as new, unless it is a
    purge at a clock past the entry's expiry. -/
theorem get_step {dc : DistributedCache} (ev : Event) {k : String} {e : CacheEntry}
    (he : dc.localCache.cache.get k = some e) :
    e.expiresMicros < ev.nowMicros ∨ ∃ e', (dc.step ev).localCache.cache.get k = some e' ∧
      e.thisUpdateMicros ≤ e'.thisUpdateMicros := by
  cases ev with
  | putBytes k' v t => exact .inr (LocalCache.get_put_newer he _ _ _ _ _ _)
  | deliver msg t =>
    cases msg with
    | putCacheEntry k' t' ex b o s => exact .inr (LocalCache.get_put_newer he _ _ _ _ _ _)
    | stateViewUpdate => exact .inr ⟨e, he, le_rfl⟩
    | initStateTransfer => exact .inr ⟨e, he, le_rfl⟩
  | purgeExpired t =>
    by_cases hexp : e.expiresMicros < t
    · exact .inl hexp
    · exact .inr ⟨e, by simp [step, he, hexp], le_rfl⟩
  | removeExpiredOtherNodes t => exact .inr ⟨e, he, le_rfl⟩

/-- Before the counter wraps, no step lowers it. -/
theorem current_le_step {dc : DistributedCache} (ev : Event)
    (hb : dc.clusterView.localSequence.current + 1 < u64Size) :
    dc.clusterView.localSequence.current ≤ (dc.step ev).clusterView.localSequence.current := by
  rcases step_localSequence dc ev with h | h <;> rw [h]
  show _ ≤ dc.clusterView.nextLocalUpdateSeq.2
  exact (nextLocalUpdateSeq_of_lt hb).symm ▸ Nat.le_succ _

end DistributedCache

namespace Cluster

/-- Every entry a replica holds and every entry a sent request carries, with its key. -/
def entries (c : Cluster) : List (String × CacheEntry) :=
  c.nodes.flatMap (fun dc => dc.localCache.cache.entries) ++
    c.sent.filterMap fun env => env.msg.entry

theorem entries_init (n cacheItemTtlMicros nowMicros : Nat) :
    (init n cacheItemTtlMicros nowMicros).entries = [] := by
  simp [entries, init, DistributedCache.new, LocalCache.new, SkipMap.empty,
    EmptyCollection.emptyCollection]

theorem mem_entries_of_node {c : Cluster} {i : Nat} {dc : DistributedCache}
    (hdc : c.nodes[i]? = some dc) {x : String × CacheEntry}
    (hx : x ∈ dc.localCache.cache.entries) : x ∈ c.entries :=
  List.mem_append_left _ (List.mem_flatMap.mpr ⟨dc, List.getElem?_mem hdc, hx⟩)

theorem mem_entries_of_sent {c : Cluster} {env : Envelope} (henv : env ∈ c.sent)
    {x : String × CacheEntry} (hx : env.msg.entry = some x) : x ∈ c.entries :=
  List.mem_append_right _ (List.mem_filterMap.mpr ⟨env, henv, hx⟩)

theorem mem_entries_of_sent_append {c c' : Cluster} {out : List Envelope}
    {x : String × CacheEntry} (hx : x ∈ c'.entries) (hn : c'.nodes = c.nodes)
    (hs : c'.sent = c.sent ++ out) :
    x ∈ c.entries ∨ x ∈ out.filterMap fun env => env.msg.entry := by
  rw [entries, hn, hs, List.filterMap_append, ← List.append_assoc, List.mem_append] at hx
  exact hx

theorem mem_entries_setNode {c : Cluster} {i : Nat} {dc : DistributedCache}
    {out : List Envelope} {x : String × CacheEntry} (hx : x ∈ (c.setNode i dc out).entries) :
    x ∈ c.entries ∨ x ∈ dc.localCache.cache.entries ∨
      x ∈ out.filterMap fun env => env.msg.entry := by
  rw [entries, setNode, List.filterMap_append, List.mem_append, List.mem_append] at hx
  rcases hx with hx | hx | hx
  · obtain ⟨dc', hdc', hmem⟩ := List.mem_flatMap.mp hx
    rcases List.mem_or_eq_of_mem_set hdc' with hdc' | rfl
    · exact .inl (List.mem_append_left _ (List.mem_flatMap.mpr ⟨dc', hdc', hmem⟩))
    · exact .inr (.inl hmem)
  · exact .inl (List.mem_append_right _ hx)
  · exact .inr (.inr hx)

/-- **What one action can do to the entries**: every entry after it was there before, or is the
    entry of the `put_bytes` it runs. -/
theorem mem_entries_exec {c c' : Cluster} {a : Action} (h : c.exec a = some c')
    {x : String × CacheEntry} (hx : x ∈ c'.entries) :
    x ∈ c.entries ∨ ∃ i dc k v, a = .putBytes i k v ∧ c.nodes[i]? = some dc ∧
      x = dc.putBytesEntry k v c.nowMicros := by
  cases execCase_of_exec h with
  | tick | spawn | collect => exact .inl hx
  | putBytes k v hdc =>
    rcases mem_entries_setNode hx with hx | hx | hx
    · exact .inl hx
    · rcases DistributedCache.mem_entries_putBytes hx with hx | hx
      · exact .inl (mem_entries_of_node hdc hx)
      · exact .inr ⟨_, _, k, v, rfl, hdc, hx⟩
    · exact .inr ⟨_, _, k, v, rfl, hdc, DistributedCache.entry_of_mem_putBytes hx⟩
  | handle henv hdc hm =>
    -- the destination stores at most the delivered entry, and replies with none
    rcases mem_entries_setNode hx with hx | hx | hx
    · exact .inl hx
    · exact .inl ((DistributedCache.mem_entries_handle hx).elim (mem_entries_of_node hdc)
        (mem_entries_of_sent (List.getElem?_mem henv)))
    · rw [DistributedCache.handle_entries _ _ hm] at hx
      cases hx
  | notifyOtherNodes =>
    rcases mem_entries_of_sent_append (c := c) hx rfl rfl with hx | hx
    · exact .inl hx
    · rw [DistributedCache.notifyOtherNodes_entries] at hx; cases hx
  | purgeExpired hdc =>
    rcases mem_entries_setNode hx with hx | hx | hx
    · exact .inl hx
    · exact .inl (mem_entries_of_node hdc (LocalCache.mem_entries_purgeExpired hx))
    · cases hx
  | removeExpiredOtherNodes hdc =>
    rcases mem_entries_setNode hx with hx | hx | hx
    · exact .inl hx
    · exact .inl (mem_entries_of_node hdc hx)
    · cases hx
  | yield ht hdc =>
    -- a poll sends an entry the sender holds
    exact .inl ((mem_entries_of_sent_append (c := c) hx rfl rfl).elim id fun hx =>
      mem_entries_of_node hdc (DistributedCache.entry_of_mem_lookupForTransfer hx))

theorem node_exec_putBytes {c c' : Cluster} {i : Nat} {k : String} {v : List UInt8}
    (h : c.exec (.putBytes i k v) = some c') {dc : DistributedCache}
    (hdc : c.nodes[i]? = some dc) : c'.nodes[i]? = some (dc.putBytes k v c.nowMicros).1 := by
  obtain ⟨dc₀, hdc₀, rfl⟩ := Option.map_eq_some'.mp h
  rw [hdc, Option.some.injEq] at hdc₀
  subst hdc₀
  exact List.getElem?_set_self (List.getElem?_eq_some_iff.mp hdc).1

/-! ## What every run keeps -/

section Runs

variable {n ttl start : Nat} {c c' : Cluster} {a : Action}

/-- Replicas of a cluster of at most `2^32` have distinct node ids: the low 32 bits of replica
    `i`'s id are `i`. -/
theorem Fixed.nodeId_inj (hf : Fixed n ttl start c) (hn : n ≤ u32Size) {i j : Nat}
    {dci dcj : DistributedCache} (hi : c.nodes[i]? = some dci) (hj : c.nodes[j]? = some dcj)
    (h : dci.localNodeId = dcj.localNodeId) : i = j := by
  have hmod : ∀ {k dck}, c.nodes[k]? = some dck → dck.localNodeId % u32Size = k := fun hk => by
    have hlt : _ < n := hf.length ▸ (List.getElem?_eq_some_iff.mp hk).1
    rw [(hf.node _ _ hk).2.1]
    exact (localNodeId_new _ _ _ (Nat.lt_of_lt_of_le hlt hn)).1
  rw [← hmod hi, ← hmod hj, h]

/-- Every entry was written no later than the clock reads, and expires one time to live after it
    was written. The first part compares the writer's stamp with the one clock of the model, which
    stands for every replica's clock. -/
def Lifetimes (ttl : Nat) (c : Cluster) : Prop :=
  ∀ x ∈ c.entries, x.2.thisUpdateMicros ≤ c.nowMicros ∧
    x.2.expiresMicros = wrappingAdd x.2.thisUpdateMicros ttl

theorem Lifetimes.exec (hl : Lifetimes ttl c) (hf : Fixed n ttl start c)
    (h : c.exec a = some c') : Lifetimes ttl c' := by
  intro x hx
  rcases mem_entries_exec h hx with hx | ⟨i, dc, k, v, rfl, hdc, rfl⟩
  · exact ⟨(hl x hx).1.trans (nowMicros_le_exec h), (hl x hx).2⟩
  · refine ⟨nowMicros_le_exec h, ?_⟩
    show wrappingAdd c.nowMicros dc.cacheItemTtlMicros = wrappingAdd c.nowMicros ttl
    rw [(hf.node i dc hdc).2.2]

theorem Lifetimes.reachable (hc : Reachable (init n ttl start) c) : Lifetimes ttl c :=
  hc.induction (fun x hx => by simp [entries_init] at hx) fun hmid hl ha =>
    hl.exec (Fixed.reachable hmid) ha

/-- While the clock leaves room for one more time to live, an entry expires exactly one time to
    live after it was written. -/
theorem Lifetimes.expiresMicros_eq (hl : Lifetimes ttl c) (hroom : c.nowMicros + ttl < u64Size)
    {x : String × CacheEntry} (hx : x ∈ c.entries) :
    x.2.thisUpdateMicros ≤ c.nowMicros ∧ x.2.expiresMicros = x.2.thisUpdateMicros + ttl :=
  ⟨(hl x hx).1, (hl x hx).2.trans (Nat.mod_eq_of_lt (by have := (hl x hx).1; omega))⟩

/-- **Copies keep the writer's expiry.** In every state reachable from a fresh cluster, every
    entry a replica holds or a request carries expires one time to live, modulo `2^64`, after the
    `this_update_micros` its writer stamped: a broadcast, a state transfer or a redelivery copies
    the expiry and never renews it. -/
theorem entries_keep_writer_expiry (hc : Reachable (init n ttl start) c)
    {x : String × CacheEntry} (hx : x ∈ c.entries) :
    x.2.expiresMicros = wrappingAdd x.2.thisUpdateMicros ttl :=
  (Lifetimes.reachable hc x hx).2

/-- Replica `0` writes once it has seen replica `1`, and replica `1` receives the write: the
    copy replica `1` stores expires ten microseconds after the write. -/
theorem entries_keep_writer_expiry_example :
    let c := ((init 2 10 3000000).execAll
      [.notifyOtherNodes 1, .deliver 0, .putBytes 0 "k" [1], .deliver 1]).getD (init 0 0 0)
    let x := (DistributedCache.new 0 10 3000000).putBytesEntry "k" [1] 3000000
    (Reachable (init 2 10 3000000) c ∧ x ∈ c.entries) ∧
      x.2.expiresMicros = wrappingAdd x.2.thisUpdateMicros 10 := by
  intro c x
  have hc : Reachable (init 2 10 3000000) c := reachable_of_execAll _
    [.notifyOtherNodes 1, .deliver 0, .putBytes 0 "k" [1], .deliver 1] _ rfl
  have hx : x ∈ c.entries := by decide
  exact ⟨⟨hc, hx⟩, entries_keep_writer_expiry hc hx⟩

/-! ## Last writer wins at every replica -/

/-- After an action, a replica's entry for a key is at least as new as before, unless it had
    expired at the action's clock. -/
theorem get_exec (h : c.exec a = some c') {i : Nat} {dc : DistributedCache}
    (hdc : c.nodes[i]? = some dc) {k : String} {e : CacheEntry}
    (he : dc.localCache.cache.get k = some e) :
    e.expiresMicros < c.nowMicros ∨ ∃ (dc' : DistributedCache) (e' : CacheEntry),
      c'.nodes[i]? = some dc' ∧ dc'.localCache.cache.get k = some e' ∧
      e.thisUpdateMicros ≤ e'.thisUpdateMicros := by
  obtain ⟨dc', hdc', rfl | ⟨ev, rfl, hev⟩⟩ := node_of_exec h hdc
  · exact .inr ⟨dc', e, hdc', he, le_rfl⟩
  · rcases DistributedCache.get_step ev he with hexp | ⟨e', he', hle⟩
    · exact .inl (hev ▸ hexp)
    · exact .inr ⟨_, e', hdc', he', hle⟩

/-- **No key rolls back while its entry is live.** From any state reachable from a fresh cluster,
    over any run that leaves the clock room for one more time to live, the entry a replica holds
    for a key is only ever replaced by entries at least as new, until the clock passes its expiry:
    no delivery, however late or repeated, brings an older value back before then. -/
theorem get_newer_or_expired (hc : Reachable (init n ttl start) c) (hrun : Reachable c c')
    (hroom : c'.nowMicros + ttl < u64Size) {i : Nat} {dc : DistributedCache}
    (hdc : c.nodes[i]? = some dc) {k : String} {e : CacheEntry}
    (he : dc.localCache.cache.get k = some e) :
    e.expiresMicros < c'.nowMicros ∨ ∃ (dc' : DistributedCache) (e' : CacheEntry),
      c'.nodes[i]? = some dc' ∧ dc'.localCache.cache.get k = some e' ∧
      e.thisUpdateMicros ≤ e'.thisUpdateMicros := by
  induction hrun with
  | refl => exact .inr ⟨dc, e, hdc, he, le_rfl⟩
  | tail hmid hstep ih =>
    obtain ⟨a, ha⟩ := hstep
    have hclock := nowMicros_le_exec ha
    rcases ih (by omega) with hexp | ⟨dcb, eb, hdcb, heb, hle⟩
    · exact .inl (by omega)
    rcases get_exec ha hdcb heb with hexp | ⟨dc', e', hdc', he', hle'⟩
    · -- the newer entry expired, and it expires no earlier than the first one
      have hlife := (Lifetimes.reachable hc).expiresMicros_eq
        (by have := nowMicros_le_of_reachable hmid; omega)
        (mem_entries_of_node hdc ((SkipMap.mem_entries_iff _ _ _).mpr he))
      have hlifeb := (Lifetimes.reachable (hc.trans hmid)).expiresMicros_eq (by omega)
        (mem_entries_of_node hdcb ((SkipMap.mem_entries_iff _ _ _).mpr heb))
      exact .inl (by simp only at hlife hlifeb; omega)
    · exact .inr ⟨dc', e', hdc', he', hle.trans hle'⟩

/-- Replica `1` holds the first write of replica `0`. Replica `0` writes the key again, and
    replica `1` receives the new write and then the old one a second time: it keeps the newer
    entry. -/
theorem get_newer_or_expired_example :
    let c := ((init 2 10 3000000).execAll
      [.notifyOtherNodes 1, .deliver 0, .putBytes 0 "k" [1], .deliver 1]).getD (init 0 0 0)
    let c' := ((init 2 10 3000000).execAll
      ([.notifyOtherNodes 1, .deliver 0, .putBytes 0 "k" [1], .deliver 1] ++
        [.tick 3000001, .putBytes 0 "k" [2], .deliver 2, .deliver 1])).getD (init 0 0 0)
    let dc := c.nodes[1]?.getD (DistributedCache.new 0 0 0)
    let e : CacheEntry := ⟨3000000, 3 <<< 32, 1, 3000010, [1]⟩
    (Reachable (init 2 10 3000000) c ∧ Reachable c c' ∧ c'.nowMicros + 10 < u64Size ∧
        c.nodes[1]? = some dc ∧ dc.localCache.cache.get "k" = some e) ∧
      (e.expiresMicros < c'.nowMicros ∨ ∃ (dc' : DistributedCache) (e' : CacheEntry),
        c'.nodes[1]? = some dc' ∧ dc'.localCache.cache.get "k" = some e' ∧
        e.thisUpdateMicros ≤ e'.thisUpdateMicros) := by
  intro c c' dc e
  have hc : Reachable (init 2 10 3000000) c := reachable_of_execAll _
    [.notifyOtherNodes 1, .deliver 0, .putBytes 0 "k" [1], .deliver 1] _ rfl
  have hrun : Reachable c c' := reachable_execAll_append _ _
    [.notifyOtherNodes 1, .deliver 0, .putBytes 0 "k" [1], .deliver 1]
    [.tick 3000001, .putBytes 0 "k" [2], .deliver 2, .deliver 1] (by decide)
  have hroom : c'.nowMicros + 10 < u64Size := by decide
  have hdc : c.nodes[1]? = some dc := rfl
  have he : dc.localCache.cache.get "k" = some e := by decide
  exact ⟨⟨hc, hrun, hroom, hdc, he⟩, get_newer_or_expired hc hrun hroom hdc he⟩

/-! ## Before a counter wraps -/

/-- No replica has drawn `u64::MAX` sequence numbers. -/
def BeforeWrap (c : Cluster) : Prop :=
  ∀ dc ∈ c.nodes, dc.clusterView.localSequence.current + 1 < u64Size

/-- A step from a state where no counter is about to wrap. -/
def StepBeforeWrap (c c' : Cluster) : Prop := Step c c' ∧ BeforeWrap c

/-- Some run of steps taken before any counter wraps leads from `c₀` to `c`. -/
def ReachableBeforeWrap (c₀ c : Cluster) : Prop := Relation.ReflTransGen StepBeforeWrap c₀ c

theorem ReachableBeforeWrap.reachable {c₀ : Cluster} (h : ReachableBeforeWrap c₀ c) :
    Reachable c₀ c :=
  Relation.ReflTransGen.mono (fun _ _ hs => hs.1) h

/-- No action raises a counter by more than one. -/
theorem current_le_exec (h : c.exec a = some c') {k : Nat}
    (hk : ∀ dc ∈ c.nodes, dc.clusterView.localSequence.current ≤ k) :
    ∀ dc ∈ c'.nodes, dc.clusterView.localSequence.current ≤ k + 1 := by
  intro dc' hdc'
  obtain ⟨j, hj⟩ := List.getElem?_of_mem hdc'
  obtain ⟨dc, hdc, rfl | ⟨ev, rfl, -⟩⟩ := node_exec h hj
  · exact Nat.le_succ_of_le (hk dc' (List.getElem?_mem hdc))
  · exact (DistributedCache.current_step_le dc ev).trans
      (Nat.succ_le_succ (hk dc (List.getElem?_mem hdc)))

/-- A run of fewer than `u64::MAX` actions from counters at most `k` cannot wrap a counter. -/
theorem reachableBeforeWrap_of_execAll {c₀ : Cluster} {as : List Action}
    (h : c₀.execAll as = some c) {k : Nat}
    (hk : ∀ dc ∈ c₀.nodes, dc.clusterView.localSequence.current ≤ k)
    (hlen : k + as.length < u64Size) : ReachableBeforeWrap c₀ c := by
  induction as generalizing c₀ k with
  | nil => cases h; exact .refl
  | cons a as ih =>
    rw [execAll, Option.bind_eq_some] at h
    obtain ⟨c₁, ha, h⟩ := h
    rw [List.length_cons] at hlen
    have hb : BeforeWrap c₀ := fun dc hdc => by have := hk dc hdc; omega
    exact .head ⟨⟨a, ha⟩, hb⟩ (ih h (current_le_exec ha hk) (by omega))

theorem reachableBeforeWrap_of_execAll_init (as : List Action)
    (h : (init n ttl start).execAll as = some c) (hlen : as.length < u64Size) :
    ReachableBeforeWrap (init n ttl start) c := by
  refine reachableBeforeWrap_of_execAll h (k := 0) (fun dc hdc => ?_) (by omega)
  obtain ⟨i, -, rfl⟩ := List.mem_map.mp hdc
  exact le_rfl

/-- Every entry carries the node id of a replica of the cluster and a sequence number that
    replica has drawn. -/
def Drawn (c : Cluster) : Prop :=
  ∀ x ∈ c.entries, ∃ (i : Nat) (dc : DistributedCache), c.nodes[i]? = some dc ∧
    dc.localNodeId = x.2.originNodeId ∧
    1 ≤ x.2.originNodeUpdateSeq ∧ x.2.originNodeUpdateSeq ≤ dc.clusterView.localSequence.current

theorem Drawn.exec (hd : Drawn c) (hb : BeforeWrap c) (h : c.exec a = some c') : Drawn c' := by
  intro x hx
  rcases mem_entries_exec h hx with hx | ⟨i, dc, k, v, rfl, hdc, rfl⟩
  · obtain ⟨i, dc, hdc, hid, hpos, hle⟩ := hd x hx
    obtain ⟨dc', hdc', rfl | ⟨ev, rfl, -⟩⟩ := node_of_exec h hdc
    · exact ⟨i, dc', hdc', hid, hpos, hle⟩
    · exact ⟨i, _, hdc', (DistributedCache.step_localNodeId dc ev).trans hid, hpos,
        hle.trans (DistributedCache.current_le_step ev (hb dc (List.getElem?_mem hdc)))⟩
  · have hseq := DistributedCache.nextLocalUpdateSeq_of_lt (hb dc (List.getElem?_mem hdc))
    refine ⟨i, _, node_exec_putBytes h hdc, rfl, ?_, le_rfl⟩
    show 1 ≤ dc.clusterView.nextLocalUpdateSeq.2
    omega

/-- The causal coordinate `(origin_node_id, origin_node_update_seq)` of an entry determines its
    key and the whole entry. -/
def CoordinatesUnique (c : Cluster) : Prop :=
  ∀ x ∈ c.entries, ∀ y ∈ c.entries, x.2.originNodeId = y.2.originNodeId →
    x.2.originNodeUpdateSeq = y.2.originNodeUpdateSeq → x = y

/-- No entry naming a replica's node id carries a number that replica has not drawn. -/
def Fresh (c : Cluster) : Prop :=
  ∀ x ∈ c.entries, ∀ (i : Nat) (dc : DistributedCache), c.nodes[i]? = some dc →
    x.2.originNodeId = dc.localNodeId →
      x.2.originNodeUpdateSeq ≤ dc.clusterView.localSequence.current

/-- With distinct node ids, every entry's writer is the replica its node id names. -/
theorem Drawn.fresh (hn : n ≤ u32Size) (hf : Fixed n ttl start c) (hd : Drawn c) : Fresh c := by
  intro x hx i dc hdc ho
  obtain ⟨j, dcj, hdcj, hid, -, hle⟩ := hd x hx
  obtain rfl := hf.nodeId_inj hn hdcj hdc (hid.trans ho)
  rw [hdcj, Option.some.injEq] at hdc
  exact hdc ▸ hle

/-- An entry of the cluster never has the coordinate of the entry a `put_bytes` is about to write:
    the writer's new number is past every number it drew. -/
theorem seq_lt_putBytesEntry (hfresh : Fresh c) (hb : BeforeWrap c) {x : String × CacheEntry}
    (hx : x ∈ c.entries) {i : Nat} {dc : DistributedCache} (hdc : c.nodes[i]? = some dc)
    (k : String) (v : List UInt8) (ho : x.2.originNodeId = dc.localNodeId) :
    x.2.originNodeUpdateSeq < (dc.putBytesEntry k v c.nowMicros).2.originNodeUpdateSeq := by
  have hle := hfresh x hx i dc hdc ho
  have hseq := DistributedCache.nextLocalUpdateSeq_of_lt (hb dc (List.getElem?_mem hdc))
  show _ < dc.clusterView.nextLocalUpdateSeq.2
  omega

theorem CoordinatesUnique.exec (hfresh : Fresh c) (hb : BeforeWrap c) (hu : CoordinatesUnique c)
    (h : c.exec a = some c') : CoordinatesUnique c' := by
  intro x hx y hy ho hs
  rcases mem_entries_exec h hx with hx | ⟨i, dc, k, v, rfl, hdc, rfl⟩ <;>
    rcases mem_entries_exec h hy with hy | ⟨i', dc', k', v', ha, hdc', rfl⟩
  · exact hu x hx y hy ho hs
  · exact absurd hs (seq_lt_putBytesEntry hfresh hb hx hdc' k' v' ho).ne
  · exact absurd hs.symm (seq_lt_putBytesEntry hfresh hb hy hdc k v ho.symm).ne
  · cases ha
    rw [hdc, Option.some.injEq] at hdc'
    rw [hdc']

theorem Drawn.reachable (hc : ReachableBeforeWrap (init n ttl start) c) : Drawn c := by
  induction hc with
  | refl => intro x hx; simp [entries_init] at hx
  | tail _ hstep ih =>
    obtain ⟨⟨a, ha⟩, hb⟩ := hstep
    exact ih.exec hb ha

theorem CoordinatesUnique.reachable (hn : n ≤ u32Size)
    (hc : ReachableBeforeWrap (init n ttl start) c) : CoordinatesUnique c := by
  induction hc with
  | refl => intro x hx; simp [entries_init] at hx
  | tail hc₀ hstep ih =>
    obtain ⟨⟨a, ha⟩, hb⟩ := hstep
    exact ih.exec ((Drawn.reachable hc₀).fresh hn
      (Fixed.reachable (ReachableBeforeWrap.reachable hc₀))) hb ha

/-- **Every entry has a writer in the cluster.** Before any counter wraps, every entry a replica
    holds or a request carries names, as its origin, the node id of a replica of the cluster, with
    a sequence number that replica has drawn. -/
theorem entries_written_by_origin (hc : ReachableBeforeWrap (init n ttl start) c)
    {x : String × CacheEntry} (hx : x ∈ c.entries) :
    ∃ (i : Nat) (dc : DistributedCache), c.nodes[i]? = some dc ∧
      dc.localNodeId = x.2.originNodeId ∧ 1 ≤ x.2.originNodeUpdateSeq ∧
      x.2.originNodeUpdateSeq ≤ dc.clusterView.localSequence.current :=
  Drawn.reachable hc x hx

/-- The write of replica `0` that replica `1` received names replica `0` and its first number. -/
theorem entries_written_by_origin_example :
    let c := ((init 2 10 3000000).execAll
      [.notifyOtherNodes 1, .deliver 0, .putBytes 0 "k" [1], .deliver 1]).getD (init 0 0 0)
    let x := (DistributedCache.new 0 10 3000000).putBytesEntry "k" [1] 3000000
    (ReachableBeforeWrap (init 2 10 3000000) c ∧ x ∈ c.entries) ∧
      ∃ (i : Nat) (dc : DistributedCache), c.nodes[i]? = some dc ∧
        dc.localNodeId = x.2.originNodeId ∧ 1 ≤ x.2.originNodeUpdateSeq ∧
        x.2.originNodeUpdateSeq ≤ dc.clusterView.localSequence.current := by
  intro c x
  have hc : ReachableBeforeWrap (init 2 10 3000000) c := reachableBeforeWrap_of_execAll_init
    [.notifyOtherNodes 1, .deliver 0, .putBytes 0 "k" [1], .deliver 1] rfl (by decide)
  have hx : x ∈ c.entries := by decide
  exact ⟨⟨hc, hx⟩, entries_written_by_origin hc hx⟩

/-- **The causal coordinate identifies an entry.** In a cluster of at most `2^32` replicas, before
    any counter wraps, two entries held or carried anywhere with the same
    `(origin_node_id, origin_node_update_seq)` have the same key and are the same entry: the
    coordinate the gap detection and the state transfer go by never names two writes. -/
theorem entries_coordinates_unique (hn : n ≤ u32Size)
    (hc : ReachableBeforeWrap (init n ttl start) c) {x y : String × CacheEntry}
    (hx : x ∈ c.entries) (hy : y ∈ c.entries) (ho : x.2.originNodeId = y.2.originNodeId)
    (hs : x.2.originNodeUpdateSeq = y.2.originNodeUpdateSeq) : x = y :=
  CoordinatesUnique.reachable hn hc x hx y hy ho hs

/-- The entry replica `0` wrote and the copy replica `1` received share their coordinate. -/
theorem entries_coordinates_unique_example :
    let c := ((init 2 10 3000000).execAll
      [.notifyOtherNodes 1, .deliver 0, .putBytes 0 "k" [1], .deliver 1]).getD (init 0 0 0)
    let x := (DistributedCache.new 0 10 3000000).putBytesEntry "k" [1] 3000000
    (2 ≤ u32Size ∧ ReachableBeforeWrap (init 2 10 3000000) c ∧ x ∈ c.entries) ∧ x = x := by
  intro c x
  have hc : ReachableBeforeWrap (init 2 10 3000000) c := reachableBeforeWrap_of_execAll_init
    [.notifyOtherNodes 1, .deliver 0, .putBytes 0 "k" [1], .deliver 1] rfl (by decide)
  have hx : x ∈ c.entries := by decide
  exact ⟨⟨by decide, hc, hx⟩, entries_coordinates_unique (by decide) hc hx hx rfl rfl⟩

/-- A baseline above `0` is backed by a `put_cache_entry` sent to the replica. -/
theorem Msg.exists_entry_of_update {msg : Msg} {o s : Nat} (h : msg.update = some (o, s)) :
    ∃ x, msg.entry = some x ∧ x.2.originNodeId = o ∧ x.2.originNodeUpdateSeq = s := by
  cases msg with
  | putCacheEntry k t e b o' s' =>
    simp only [Msg.update, Option.some.injEq, Prod.mk.injEq] at h
    obtain ⟨rfl, rfl⟩ := h
    exact ⟨_, rfl, rfl, rfl⟩
  | stateViewUpdate => cases h
  | initStateTransfer => cases h

/-- **No baseline runs ahead of its origin.** Before any counter wraps, every baseline a replica
    keeps for an origin is `0` or at most the counter of the replica of the cluster with that
    node id: gap detection never takes as received a write its origin has not made. -/
theorem baselineSeq_le_origin_current (hc : ReachableBeforeWrap (init n ttl start) c) {i : Nat}
    {dc : DistributedCache} (hdc : c.nodes[i]? = some dc) {o : Nat} {nv : NodeView}
    (hnv : dc.clusterView.otherNodesUpdateSeqs.get o = some nv) :
    nv.baselineSeq = 0 ∨ ∃ (j : Nat) (dcj : DistributedCache), c.nodes[j]? = some dcj ∧
      dcj.localNodeId = o ∧ nv.baselineSeq ≤ dcj.clusterView.localSequence.current := by
  rcases Nat.eq_zero_or_pos nv.baselineSeq with h0 | hpos
  · exact .inl h0
  have hsent := ((inv_init n ttl start).reachable hc.reachable i dc hdc).baselines o nv hnv _
    hpos le_rfl
  obtain ⟨env, henv, hupd⟩ := List.mem_filterMap.mp hsent
  split at hupd
  · obtain ⟨x, hentry, rfl, hseq⟩ := Msg.exists_entry_of_update hupd
    obtain ⟨j, dcj, hj, hid, -, hle⟩ := Drawn.reachable hc x (mem_entries_of_sent henv hentry)
    exact .inr ⟨j, dcj, hj, hid, hseq ▸ hle⟩
  · cases hupd

/-- After receiving the first write of replica `0`, replica `1` keeps baseline `1` for it, the
    number replica `0` has drawn. -/
theorem baselineSeq_le_origin_current_example :
    let c := ((init 2 10 3000000).execAll
      [.notifyOtherNodes 1, .deliver 0, .putBytes 0 "k" [1], .deliver 1]).getD (init 0 0 0)
    let dc := c.nodes[1]?.getD (DistributedCache.new 0 0 0)
    let nv : NodeView := ⟨1, 1⟩
    (ReachableBeforeWrap (init 2 10 3000000) c ∧ c.nodes[1]? = some dc ∧
      dc.clusterView.otherNodesUpdateSeqs.get (3 <<< 32) = some nv) ∧
      (nv.baselineSeq = 0 ∨ ∃ (j : Nat) (dcj : DistributedCache), c.nodes[j]? = some dcj ∧
        dcj.localNodeId = 3 <<< 32 ∧ nv.baselineSeq ≤ dcj.clusterView.localSequence.current) := by
  intro c dc nv
  have hc : ReachableBeforeWrap (init 2 10 3000000) c := reachableBeforeWrap_of_execAll_init
    [.notifyOtherNodes 1, .deliver 0, .putBytes 0 "k" [1], .deliver 1] rfl (by decide)
  have hdc : c.nodes[1]? = some dc := rfl
  have hnv : dc.clusterView.otherNodesUpdateSeqs.get (3 <<< 32) = some nv := by decide
  exact ⟨⟨hc, hdc, hnv⟩, baselineSeq_le_origin_current hc hdc hnv⟩

end Runs

end Cluster

end Clacheless
