import Mathlib.Logic.Relation
import Clacheless.DistributedCache

set_option autoImplicit false

/-! # A cluster of replicas

The replicas of a deployment, indexed by ordinal, and the network between them. Every request a
replica sends is added to `sent` and stays there: a delivery takes any request of `sent`, so
requests can be lost (never delivered), duplicated and reordered.

One clock serves every replica and never goes back: each replica stamps its writes, filters its
reads and ages its peers with `nowMicros`, which only a tick moves. The code reads each replica's
own clock (`get_timestamp_micros`), so a result that compares a stamp one replica wrote with the
clock of another assumes synchronized clocks. The replicas of `exec` run for the whole run: a
restart, which gives the replica a new node id and a fresh sequence, is the separate step
`restart` of the churn model (`Clacheless.Churn`).

An `init_state_transfer` request does not stream at once. It spawns the task of
`transfer_state` (`TransferTask`), whose `iter` collects `(key, origin_node_update_seq)` when the
task starts and looks each key up again, in the sender's state of that moment, when it yields it.
Any other step may run between two polls of a task, writes at the sender included. Polled with
nothing in between, a task sends what the eager `transfer_state` sends
(`execAll_poll_eq_transferState`).

`ExecCase` lists what one action can do, with its guards, one case per branch of `exec`
(`execCase_of_exec`); the invariants of runs are proved by a case analysis over it and lifted to
whole runs by `Reachable.induction`.

`Reachable c₀ c` says that some run leads from `c₀` to `c`. In every state reachable from a fresh
cluster each replica's baselines are backed by updates sent to it (`Inv.reachable`), so a replica
detects in the sync gap every update that never reached it (`getOutOfSync_detects_unsent`).
`execAll` runs a list of actions, and `exists_reachable_of_execAll` turns a run that ends in a
state with a decidable property into a reachable state with that property. -/

namespace Clacheless

/-- The task `transfer_state` spawns on replica `sender`; `keys` is `none` until `iter` has
    collected them. -/
structure TransferTask where
  sender : Nat
  recieverNodeOrdinal : Nat
  dataOriginIdAndBaseline : HashMap Nat Nat
  keys : Option (List String)

/-- The replicas by ordinal, every request sent so far, the spawned transfer tasks and the
    clock. -/
structure Cluster where
  nodes : List DistributedCache
  sent : List Envelope
  tasks : List TransferTask
  nowMicros : Nat

/-- One step of the cluster. -/
inductive Action where
  /-- The clock moves forward. -/
  | tick (nowMicros : Nat)
  /-- A client calls `put_bytes` on a replica. -/
  | putBytes (node : Nat) (cacheKey : String) (cacheValue : List UInt8)
  /-- The request at `index` of `sent` is delivered (again). -/
  | deliver (index : Nat)
  /-- One round of a replica's `notify_other_nodes` loop. -/
  | notifyOtherNodes (node : Nat)
  /-- One pass of a replica's purger. -/
  | purgeExpired (node : Nat)
  /-- One pass of a replica's `remove_expired_other_nodes` loop. -/
  | removeExpiredOtherNodes (node : Nat)
  /-- One poll of a transfer task. -/
  | poll (task : Nat)

namespace Cluster

/-- `n` replicas started at `nowMicros`, none of which has sent anything. -/
def init (n cacheItemTtlMicros nowMicros : Nat) : Cluster :=
  ⟨(List.range n).map fun i => DistributedCache.new i cacheItemTtlMicros nowMicros, [], [],
    nowMicros⟩

/-- Replica `i` replaced by `dc`, which sent `out`. -/
def setNode (c : Cluster) (i : Nat) (dc : DistributedCache) (out : List Envelope) : Cluster :=
  { c with nodes := c.nodes.set i dc, sent := c.sent ++ out }

/-- The delivery of a request: its destination handles it, except that `init_state_transfer`
    spawns a transfer task. -/
def deliver (c : Cluster) (env : Envelope) : Option Cluster :=
  c.nodes[env.dest]?.map fun dc =>
    match env.msg with
    | .initStateTransfer recieverNodeOrdinal dataOriginIdAndBaseline =>
      { c with
        tasks := c.tasks ++ [⟨env.dest, recieverNodeOrdinal, dataOriginIdAndBaseline, none⟩] }
    | msg => c.setNode env.dest (dc.handle msg c.nowMicros).1 (dc.handle msg c.nowMicros).2

/-- One poll of task `j`: the first collects the keys in the sender's current state, each later
    one looks the next key up in the sender's current state and sends the entry it finds. A task
    that has yielded all its keys cannot be polled. -/
def poll (c : Cluster) (j : Nat) : Option Cluster :=
  c.tasks[j]?.bind fun t => c.nodes[t.sender]?.bind fun dc =>
  match t.keys with
  | none =>
    some { c with
      tasks := c.tasks.set j { t with
        keys := some ((dc.localCache.keyByUpdateSeq t.dataOriginIdAndBaseline c.nowMicros).map
          Prod.fst) } }
  | some [] => none
  | some (k :: ks) =>
    some { c with
      tasks := c.tasks.set j { t with keys := some ks }
      sent := c.sent ++ ((dc.localCache.lookupForTransfer k).map
        (DistributedCache.transferEnvelope t.recieverNodeOrdinal)).toList }

/-- The state after an action, `none` when the action cannot be taken. -/
def exec (c : Cluster) : Action → Option Cluster
  | .tick nowMicros =>
    if c.nowMicros ≤ nowMicros then some { c with nowMicros := nowMicros } else none
  | .putBytes i cacheKey cacheValue => c.nodes[i]?.map fun dc =>
    c.setNode i (dc.putBytes cacheKey cacheValue c.nowMicros).1
      (dc.putBytes cacheKey cacheValue c.nowMicros).2
  | .deliver n => c.sent[n]?.bind c.deliver
  | .notifyOtherNodes i => c.nodes[i]?.map fun dc =>
    { c with sent := c.sent ++ dc.notifyOtherNodes c.nowMicros }
  | .purgeExpired i => c.nodes[i]?.map fun dc =>
    c.setNode i { dc with localCache := dc.localCache.purgeExpired c.nowMicros } []
  | .removeExpiredOtherNodes i => c.nodes[i]?.map fun dc =>
    c.setNode i (dc.removeExpiredOtherNodes c.nowMicros) []
  | .poll j => c.poll j

/-- One step of the cluster. -/
def Step (c c' : Cluster) : Prop := ∃ a, c.exec a = some c'

/-- Some run leads from `c₀` to `c`. -/
def Reachable (c₀ c : Cluster) : Prop := Relation.ReflTransGen Step c₀ c

/-- The state after a list of actions, `none` if one of them cannot be taken. -/
def execAll (c : Cluster) : List Action → Option Cluster
  | [] => some c
  | a :: as => (c.exec a).bind fun c' => c'.execAll as

theorem reachable_of_execAll (c₀ : Cluster) (as : List Action) (c : Cluster)
    (h : c₀.execAll as = some c) : Reachable c₀ c := by
  induction as generalizing c₀ with
  | nil => cases h; exact .refl
  | cons a as ih =>
    cases ha : c₀.exec a with
    | none => simp [execAll, ha] at h
    | some c₁ =>
      rw [execAll, ha, Option.some_bind] at h
      exact .head ⟨a, ha⟩ (ih c₁ h)

/-- A run of `as ++ bs` is a run of `as`, then a run of `bs` from where it ends. -/
theorem execAll_append_eq (c : Cluster) (as bs : List Action) :
    c.execAll (as ++ bs) = (c.execAll as).bind fun c₁ => c₁.execAll bs := by
  induction as generalizing c with
  | nil => rfl
  | cons a as ih =>
    rw [List.cons_append, execAll, execAll, Option.bind_assoc]
    simp only [ih]

/-- Two runs one after the other. -/
theorem execAll_append {c c₁ c₂ : Cluster} {as bs : List Action} (h₁ : c.execAll as = some c₁)
    (h₂ : c₁.execAll bs = some c₂) : c.execAll (as ++ bs) = some c₂ := by
  rw [execAll_append_eq, h₁, Option.some_bind, h₂]

/-- A run that continues another one leads from where the first part ends to where the whole
    run ends. -/
theorem reachable_execAll_append (c₀ d : Cluster) (as bs : List Action)
    (h : (c₀.execAll (as ++ bs)).isSome) :
    Reachable ((c₀.execAll as).getD d) ((c₀.execAll (as ++ bs)).getD d) := by
  rw [execAll_append_eq] at h ⊢
  cases h₁ : c₀.execAll as with
  | none => rw [h₁] at h; cases h
  | some c₁ =>
    rw [h₁, Option.some_bind] at h
    rw [Option.some_bind]
    obtain ⟨c₂, h₂⟩ := Option.isSome_iff_exists.mp h
    rw [h₂]
    exact reachable_of_execAll c₁ bs c₂ h₂

/-- What holds at `c₀` and is kept by every action taken from a state reachable from `c₀` holds
    at every state reachable from `c₀`. -/
theorem Reachable.induction {c₀ c : Cluster} {P : Cluster → Prop} (h : Reachable c₀ c)
    (h₀ : P c₀) (hstep : ∀ {c c' : Cluster} {a : Action}, Reachable c₀ c → P c →
      c.exec a = some c' → P c') : P c := by
  induction h with
  | refl => exact h₀
  | tail hmid hs ih =>
    obtain ⟨a, ha⟩ := hs
    exact hstep hmid ih ha

/-- A run that ends in a state where `p` holds shows a reachable state where `p` holds. -/
theorem exists_reachable_of_execAll (c₀ : Cluster) (as : List Action) (p : Cluster → Prop)
    [DecidablePred p] (h : (c₀.execAll as).any (fun c => decide (p c)) = true) :
    ∃ c, Reachable c₀ c ∧ p c := by
  cases hc : c₀.execAll as with
  | none => simp [hc] at h
  | some c => exact ⟨c, reachable_of_execAll c₀ as c hc, by simpa [hc] using h⟩

/-! ## What one action does -/

/-- Everything an action can do, with the guards under which it runs: one constructor per branch
    of `exec`. A delivery either spawns a transfer task or has its destination handle it. A poll
    either collects the task's keys or yields the next one. -/
inductive ExecCase (c : Cluster) : Action → Cluster → Prop where
  | tick {nowMicros : Nat} (h : c.nowMicros ≤ nowMicros) :
      ExecCase c (.tick nowMicros) { c with nowMicros := nowMicros }
  | putBytes {i : Nat} {dc : DistributedCache} (cacheKey : String) (cacheValue : List UInt8)
      (hdc : c.nodes[i]? = some dc) :
      ExecCase c (.putBytes i cacheKey cacheValue)
        (c.setNode i (dc.putBytes cacheKey cacheValue c.nowMicros).1
          (dc.putBytes cacheKey cacheValue c.nowMicros).2)
  | spawn {index : Nat} {env : Envelope} {dc : DistributedCache} {r : Nat} {g : HashMap Nat Nat}
      (henv : c.sent[index]? = some env) (hdc : c.nodes[env.dest]? = some dc)
      (hm : env.msg = .initStateTransfer r g) :
      ExecCase c (.deliver index) { c with tasks := c.tasks ++ [⟨env.dest, r, g, none⟩] }
  | handle {index : Nat} {env : Envelope} {dc : DistributedCache}
      (henv : c.sent[index]? = some env) (hdc : c.nodes[env.dest]? = some dc)
      (hm : ∀ r g, env.msg ≠ .initStateTransfer r g) :
      ExecCase c (.deliver index) (c.setNode env.dest (dc.handle env.msg c.nowMicros).1
        (dc.handle env.msg c.nowMicros).2)
  | notifyOtherNodes {i : Nat} {dc : DistributedCache} (hdc : c.nodes[i]? = some dc) :
      ExecCase c (.notifyOtherNodes i) { c with sent := c.sent ++ dc.notifyOtherNodes c.nowMicros }
  | purgeExpired {i : Nat} {dc : DistributedCache} (hdc : c.nodes[i]? = some dc) :
      ExecCase c (.purgeExpired i)
        (c.setNode i { dc with localCache := dc.localCache.purgeExpired c.nowMicros } [])
  | removeExpiredOtherNodes {i : Nat} {dc : DistributedCache} (hdc : c.nodes[i]? = some dc) :
      ExecCase c (.removeExpiredOtherNodes i)
        (c.setNode i (dc.removeExpiredOtherNodes c.nowMicros) [])
  | collect {j : Nat} {t : TransferTask} {dc : DistributedCache} (ht : c.tasks[j]? = some t)
      (hdc : c.nodes[t.sender]? = some dc) (hk : t.keys = none) :
      ExecCase c (.poll j) { c with
        tasks := c.tasks.set j { t with
          keys := some ((dc.localCache.keyByUpdateSeq t.dataOriginIdAndBaseline
            c.nowMicros).map Prod.fst) } }
  | yield {j : Nat} {t : TransferTask} {dc : DistributedCache} {k : String} {ks : List String}
      (ht : c.tasks[j]? = some t) (hdc : c.nodes[t.sender]? = some dc)
      (hk : t.keys = some (k :: ks)) :
      ExecCase c (.poll j) { c with
        tasks := c.tasks.set j { t with keys := some ks }
        sent := c.sent ++ ((dc.localCache.lookupForTransfer k).map
          (DistributedCache.transferEnvelope t.recieverNodeOrdinal)).toList }

theorem execCase_of_exec {c c' : Cluster} {a : Action} (h : c.exec a = some c') :
    ExecCase c a c' := by
  cases a with
  | tick t =>
    simp only [exec] at h
    split at h
    · next ht => cases h; exact .tick ht
    · cases h
  | putBytes i k v =>
    obtain ⟨dc, hdc, rfl⟩ := Option.map_eq_some'.mp h
    exact .putBytes k v hdc
  | deliver n =>
    obtain ⟨env, henv, hd⟩ := Option.bind_eq_some.mp h
    obtain ⟨dc, hdc, rfl⟩ := Option.map_eq_some'.mp hd
    split
    · next r g hm => exact .spawn henv hdc hm
    · next msg hne => exact .handle henv hdc hne
  | notifyOtherNodes i =>
    obtain ⟨dc, hdc, rfl⟩ := Option.map_eq_some'.mp h
    exact .notifyOtherNodes hdc
  | purgeExpired i =>
    obtain ⟨dc, hdc, rfl⟩ := Option.map_eq_some'.mp h
    exact .purgeExpired hdc
  | removeExpiredOtherNodes i =>
    obtain ⟨dc, hdc, rfl⟩ := Option.map_eq_some'.mp h
    exact .removeExpiredOtherNodes hdc
  | poll j =>
    obtain ⟨t, ht, h⟩ := Option.bind_eq_some.mp h
    obtain ⟨dc, hdc, h⟩ := Option.bind_eq_some.mp h
    split at h
    · next hk => cases h; exact .collect ht hdc hk
    · cases h
    · next k ks hk => cases h; exact .yield ht hdc hk

/-! ## What every reachable state keeps

A replica counts an update as received only if a `put_cache_entry` carrying it was sent to it:
every replica keeps `DistributedCache.Inv` with the updates sent to it (`sentTo`). Every action
either only adds requests or also replaces one replica by a step of it (`exec_cases`), which is
all the invariant needs. -/

/-- The `(origin_node_id, origin_node_update_seq)` of every `put_cache_entry` sent to replica
    `i`. -/
def sentTo (sent : List Envelope) (i : Nat) : List (Nat × Nat) :=
  sent.filterMap fun env => if env.dest = i then env.msg.update else none

theorem sentTo_append (sent out : List Envelope) (i : Nat) :
    sentTo (sent ++ out) i = sentTo sent i ++ sentTo out i :=
  List.filterMap_append _ _ _

theorem update_mem_sentTo {sent : List Envelope} {env : Envelope} (h : env ∈ sent) {p : Nat × Nat}
    (hp : env.msg.update = some p) : p ∈ sentTo sent env.dest :=
  List.mem_filterMap.mpr ⟨env, h, by simp [hp]⟩

/-- Every replica's invariant, with the updates sent to it. -/
def Inv (c : Cluster) : Prop :=
  ∀ i dc, c.nodes[i]? = some dc → DistributedCache.Inv dc (sentTo c.sent i)

/-- What one action can do: add requests, and replace at most one replica by a step of it whose
    delivered update, if any, was sent to it. -/
theorem exec_cases {c c' : Cluster} {a : Action} (h : c.exec a = some c') :
    ∃ out, c'.sent = c.sent ++ out ∧ (c'.nodes = c.nodes ∨
      ∃ i dc ev, c.nodes[i]? = some dc ∧ c'.nodes = c.nodes.set i (dc.step ev) ∧
        (∀ p, ev.received = some p → p ∈ sentTo c.sent i) ∧ ev.nowMicros = c.nowMicros) := by
  cases execCase_of_exec h with
  | tick | spawn | collect => exact ⟨[], (List.append_nil _).symm, .inl rfl⟩
  | notifyOtherNodes | yield => exact ⟨_, rfl, .inl rfl⟩
  | putBytes k v hdc =>
    exact ⟨_, rfl, .inr ⟨_, _, .putBytes k v c.nowMicros, hdc, rfl, (fun p hp => by cases hp),
      rfl⟩⟩
  | handle henv hdc =>
    exact ⟨_, rfl, .inr ⟨_, _, .deliver _ c.nowMicros, hdc, rfl,
      fun p hp => update_mem_sentTo (List.getElem?_mem henv) (by simpa using hp), rfl⟩⟩
  | purgeExpired hdc =>
    exact ⟨_, rfl, .inr ⟨_, _, .purgeExpired c.nowMicros, hdc, rfl, (fun p hp => by cases hp),
      rfl⟩⟩
  | removeExpiredOtherNodes hdc =>
    exact ⟨_, rfl, .inr ⟨_, _, .removeExpiredOtherNodes c.nowMicros, hdc, rfl,
      (fun p hp => by cases hp), rfl⟩⟩

theorem inv_init (n cacheItemTtlMicros nowMicros : Nat) :
    (init n cacheItemTtlMicros nowMicros).Inv := by
  intro i dc h
  obtain ⟨j, -, rfl⟩ : ∃ j, (List.range n)[i]? = some j ∧
      DistributedCache.new j cacheItemTtlMicros nowMicros = dc := by
    simpa [init] using h
  exact DistributedCache.inv_new j cacheItemTtlMicros nowMicros

theorem Inv.exec {c c' : Cluster} {a : Action} (hi : c.Inv) (h : c.exec a = some c') :
    c'.Inv := by
  obtain ⟨out, hsent, hnodes⟩ := exec_cases h
  have hmono : ∀ i, sentTo c.sent i ⊆ sentTo c'.sent i := fun i p hp => by
    rw [hsent, sentTo_append]
    exact List.mem_append_left _ hp
  intro j dc' hj
  rcases hnodes with hn | ⟨i, dc, ev, hdc, hn, hev, -⟩
  · rw [hn] at hj
    exact (hi j dc' hj).mono (hmono j)
  · rw [hn, List.getElem?_set'] at hj
    split at hj
    · next hij =>
      subst hij
      rw [hdc] at hj
      cases hj
      refine ((hi i dc hdc).step ev).mono fun p hp => hmono i ?_
      rcases List.mem_append.mp hp with hp | hp
      · exact hev p (Option.mem_toList.mp hp)
      · exact hp
    · exact (hi j dc' hj).mono (hmono j)

/-- Every state reachable from a fresh cluster keeps the invariant. -/
theorem Inv.reachable {c₀ c : Cluster} (h₀ : c₀.Inv) (h : Reachable c₀ c) : c.Inv := by
  induction h with
  | refl => exact h₀
  | tail _ hstep ih =>
    obtain ⟨a, ha⟩ := hstep
    exact ih.exec ha

/-! ## What an action leaves of the clock and the replicas -/

/-- The clock never goes back. -/
theorem nowMicros_le_exec {c c' : Cluster} {a : Action} (h : c.exec a = some c') :
    c.nowMicros ≤ c'.nowMicros := by
  cases execCase_of_exec h with
  | tick ht => exact ht
  | _ => exact le_rfl

theorem length_nodes_exec {c c' : Cluster} {a : Action} (h : c.exec a = some c') :
    c'.nodes.length = c.nodes.length := by
  obtain ⟨-, -, hn | ⟨i, dc, ev, -, hn, -, -⟩⟩ := exec_cases h <;> simp [hn]

/-- After an action, every replica is the one before it or a step of it at the clock. -/
theorem node_exec {c c' : Cluster} {a : Action} (h : c.exec a = some c') {j : Nat}
    {dc' : DistributedCache} (hj : c'.nodes[j]? = some dc') :
    ∃ dc, c.nodes[j]? = some dc ∧
      (dc' = dc ∨ ∃ ev, dc' = dc.step ev ∧ ev.nowMicros = c.nowMicros) := by
  obtain ⟨-, -, hn | ⟨i, dc, ev, hdc, hn, -, hev⟩⟩ := exec_cases h
  · exact ⟨dc', hn ▸ hj, .inl rfl⟩
  · rw [hn, List.getElem?_set'] at hj
    split at hj
    · next hij =>
      subst hij
      rw [hdc] at hj
      cases hj
      exact ⟨dc, hdc, .inr ⟨ev, rfl, hev⟩⟩
    · exact ⟨dc', hj, .inl rfl⟩

/-- Before an action, every replica is one after it, unchanged or stepped at the clock. -/
theorem node_of_exec {c c' : Cluster} {a : Action} (h : c.exec a = some c') {j : Nat}
    {dc : DistributedCache} (hj : c.nodes[j]? = some dc) :
    ∃ dc', c'.nodes[j]? = some dc' ∧
      (dc' = dc ∨ ∃ ev, dc' = dc.step ev ∧ ev.nowMicros = c.nowMicros) := by
  have hlt : j < c'.nodes.length := length_nodes_exec h ▸ (List.getElem?_eq_some_iff.mp hj).1
  obtain ⟨dc₀, hdc₀, hstep⟩ := node_exec h (List.getElem?_eq_getElem hlt)
  rw [hj, Option.some.injEq] at hdc₀
  exact ⟨_, List.getElem?_eq_getElem hlt, hdc₀ ▸ hstep⟩

/-- The clock never goes back over a run. -/
theorem nowMicros_le_of_reachable {c₀ c : Cluster} (h : Reachable c₀ c) :
    c₀.nowMicros ≤ c.nowMicros :=
  h.induction (P := fun c => c₀.nowMicros ≤ c.nowMicros) le_rfl fun _ ih ha =>
    ih.trans (nowMicros_le_exec ha)

/-- What no action changes: the number of replicas, and each replica's ordinal, node id and time
    to live as `init` set them. -/
structure Fixed (n ttl start : Nat) (c : Cluster) : Prop where
  length : c.nodes.length = n
  node : ∀ i dc, c.nodes[i]? = some dc → dc.localNodeOrdinal = i ∧
    dc.localNodeId = (DistributedCache.new i ttl start).localNodeId ∧ dc.cacheItemTtlMicros = ttl

theorem fixed_init (n ttl start : Nat) : Fixed n ttl start (init n ttl start) where
  length := by simp [init]
  node i dc h := by
    obtain ⟨j, hj, rfl⟩ :
        ∃ j, (List.range n)[i]? = some j ∧ DistributedCache.new j ttl start = dc := by
      simpa [init] using h
    have hlt : i < n := List.length_range n ▸ (List.getElem?_eq_some_iff.mp hj).1
    rw [List.getElem?_range hlt, Option.some.injEq] at hj
    subst hj
    exact ⟨rfl, rfl, rfl⟩

theorem Fixed.exec {n ttl start : Nat} {c c' : Cluster} {a : Action} (hf : Fixed n ttl start c)
    (h : c.exec a = some c') : Fixed n ttl start c' where
  length := (length_nodes_exec h).trans hf.length
  node j dc' hj := by
    obtain ⟨dc, hdc, rfl | ⟨ev, rfl, -⟩⟩ := node_exec h hj
    · exact hf.node j dc' hdc
    · simpa using hf.node j dc hdc

theorem Fixed.reachable {n ttl start : Nat} {c : Cluster} (hc : Reachable (init n ttl start) c) :
    Fixed n ttl start c :=
  hc.induction (fixed_init n ttl start) fun _ hf ha => hf.exec ha

/-- **No replica takes for granted an update never sent to it.** In every state reachable from a
    fresh cluster, if no `put_cache_entry` for `(o, s)` with `1 ≤ s ≤ view[o]` was ever sent to a
    replica and `o` is not the replica's own id, the replica's gap for `view` requests `o` from a
    baseline below `s`. -/
theorem getOutOfSync_detects_unsent (n cacheItemTtlMicros nowMicros : Nat) (c : Cluster)
    (hc : Reachable (init n cacheItemTtlMicros nowMicros) c) (i : Nat) (dc : DistributedCache)
    (hdc : c.nodes[i]? = some dc) (view : HashMap Nat Nat) (o s rb : Nat)
    (ho : o ≠ dc.localNodeId) (hs : 1 ≤ s) (hrb : view.get o = some rb) (hsrb : s ≤ rb)
    (hmiss : (o, s) ∉ sentTo c.sent i) :
    ∃ b, (dc.clusterView.getOutOfSyncNodeIdAndBaselines view).get o = some b ∧ b < s := by
  have h := (inv_init n cacheItemTtlMicros nowMicros).reachable hc i dc hdc
  exact ClusterStateView.getOutOfSync_detects_missing h.baselines view o s rb (h.nodeId ▸ ho) hs
    hrb hsrb hmiss

/-- Replica `0` writes before it knows of any other replica, so its broadcast addresses nobody;
    it then hears from replica `1`. Replica `1` was never sent the write, and its gap for replica
    `0`'s view asks for origin `0` from a baseline below `1`. -/
theorem getOutOfSync_detects_unsent_example :
    let c := ((init 2 10 3000000).execAll
      [.putBytes 0 "k" [1], .notifyOtherNodes 1, .deliver 0]).getD (init 0 0 0)
    let dc := c.nodes[1]?.getD (DistributedCache.new 0 0 0)
    let view := (c.nodes[0]?.getD (DistributedCache.new 0 0 0)).clusterView.asMap
    (Reachable (init 2 10 3000000) c ∧ c.nodes[1]? = some dc ∧ 3 <<< 32 ≠ dc.localNodeId ∧
        1 ≤ 1 ∧ view.get (3 <<< 32) = some 1 ∧ 1 ≤ 1 ∧ (3 <<< 32, 1) ∉ sentTo c.sent 1) ∧
      ∃ b, (dc.clusterView.getOutOfSyncNodeIdAndBaselines view).get (3 <<< 32) = some b ∧
        b < 1 := by
  intro c dc view
  have hc : Reachable (init 2 10 3000000) c := reachable_of_execAll _
    [.putBytes 0 "k" [1], .notifyOtherNodes 1, .deliver 0] _ rfl
  have hdc : c.nodes[1]? = some dc := rfl
  have ho : 3 <<< 32 ≠ dc.localNodeId := by decide
  have hrb : view.get (3 <<< 32) = some 1 := by decide
  have hmiss : (3 <<< 32, 1) ∉ sentTo c.sent 1 := by decide
  exact ⟨⟨hc, hdc, ho, le_rfl, hrb, le_rfl, hmiss⟩,
    getOutOfSync_detects_unsent 2 10 3000000 c hc 1 dc hdc view _ 1 1 ho le_rfl hrb le_rfl hmiss⟩

/-! ## Lazy and eager transfer -/

/-- The first poll of a task collects the keys of its gap in the sender's current state. -/
theorem exec_poll_collect (dc : DistributedCache) (j : Nat) (c : Cluster) (t : TransferTask)
    (ht : c.tasks[j]? = some t) (hkeys : t.keys = none) (hdc : c.nodes[t.sender]? = some dc) :
    c.exec (.poll j) = some { c with
      tasks := c.tasks.set j { t with
        keys := some ((dc.localCache.keyByUpdateSeq t.dataOriginIdAndBaseline
          c.nowMicros).map Prod.fst) } } := by
  simp only [exec, poll, ht, hdc, hkeys, Option.some_bind]

/-- Polled with nothing in between, a task that has collected `ks` sends the entries found under
    them in the sender's state, in order. -/
theorem execAll_poll_keys (dc : DistributedCache) (j : Nat) (ks : List String) (c : Cluster)
    (t : TransferTask) (ht : c.tasks[j]? = some t) (hkeys : t.keys = some ks)
    (hdc : c.nodes[t.sender]? = some dc) :
    ∃ c', c.execAll (List.replicate ks.length (.poll j)) = some c' ∧ c'.nodes = c.nodes ∧
      c'.nowMicros = c.nowMicros ∧
      c'.sent = c.sent ++ (ks.filterMap dc.localCache.lookupForTransfer).map
        (DistributedCache.transferEnvelope t.recieverNodeOrdinal) := by
  induction ks generalizing c t with
  | nil => exact ⟨c, rfl, rfl, rfl, by simp⟩
  | cons k ks ih =>
    have hj : j < c.tasks.length := (List.getElem?_eq_some_iff.mp ht).1
    obtain ⟨c', hrun, hnodes, hnow, hsent⟩ := ih
      { c with
        tasks := c.tasks.set j { t with keys := some ks }
        sent := c.sent ++ ((dc.localCache.lookupForTransfer k).map
          (DistributedCache.transferEnvelope t.recieverNodeOrdinal)).toList }
      { t with keys := some ks } (List.getElem?_set_self hj) rfl hdc
    refine ⟨c', ?_, hnodes, hnow, ?_⟩
    · simp only [List.length_cons, List.replicate_succ, execAll, exec, poll, ht, hdc, hkeys,
        Option.some_bind]
      exact hrun
    · rw [hsent, List.filterMap_cons]
      cases dc.localCache.lookupForTransfer k <;> simp

/-- **Lazy transfer refines eager transfer.** A task polled to its end with no other step in
    between sends exactly the requests of `transfer_state`, in the state in which it started. -/
theorem execAll_poll_eq_transferState (dc : DistributedCache) (j : Nat) (c : Cluster)
    (t : TransferTask) (ht : c.tasks[j]? = some t) (hkeys : t.keys = none)
    (hdc : c.nodes[t.sender]? = some dc) :
    ∃ c', c.execAll (List.replicate
        ((dc.localCache.keyByUpdateSeq t.dataOriginIdAndBaseline c.nowMicros).length + 1)
        (.poll j)) = some c' ∧ c'.nodes = c.nodes ∧ c'.nowMicros = c.nowMicros ∧
      c'.sent = c.sent ++
        dc.transferState t.recieverNodeOrdinal t.dataOriginIdAndBaseline c.nowMicros := by
  have hj : j < c.tasks.length := (List.getElem?_eq_some_iff.mp ht).1
  let ks := (dc.localCache.keyByUpdateSeq t.dataOriginIdAndBaseline c.nowMicros).map Prod.fst
  obtain ⟨c', hrun, hnodes, hnow, hsent⟩ := execAll_poll_keys dc j ks
    { c with tasks := c.tasks.set j { t with keys := some ks } } { t with keys := some ks }
    (List.getElem?_set_self hj) rfl hdc
  refine ⟨c', ?_, hnodes, hnow, ?_⟩
  · rw [List.replicate_succ, execAll, exec_poll_collect dc j c t ht hkeys hdc, Option.some_bind,
      ← List.length_map _ Prod.fst]
    exact hrun
  · rw [hsent, DistributedCache.transferState, LocalCache.iter, List.filterMap_map]
    rfl

/-- Replica `1` streams its one write to replica `0`. -/
theorem execAll_poll_eq_transferState_example :
    let dc := ((DistributedCache.new 1 10 0).putBytes "k" [1] 5).1
    let t : TransferTask := ⟨1, 0, (∅ : HashMap Nat Nat).insert 1 0, none⟩
    let c : Cluster := ⟨[DistributedCache.new 0 10 0, dc], [], [t], 5⟩
    (c.tasks[0]? = some t ∧ t.keys = none ∧ c.nodes[t.sender]? = some dc) ∧
      ∃ c', c.execAll (List.replicate
          ((dc.localCache.keyByUpdateSeq t.dataOriginIdAndBaseline c.nowMicros).length + 1)
          (.poll 0)) = some c' ∧ c'.nodes = c.nodes ∧ c'.nowMicros = c.nowMicros ∧
        c'.sent = c.sent ++
          dc.transferState t.recieverNodeOrdinal t.dataOriginIdAndBaseline c.nowMicros := by
  intro dc t c
  exact ⟨⟨rfl, rfl, rfl⟩, execAll_poll_eq_transferState dc 0 c t rfl rfl rfl⟩

/-! ## A replica's own updates can come back to it

A transfer task collects keys whose entries come from the requested origins, and the requester
never requests itself. But the task looks each key up again when it yields it, and a write of the
requester that reaches the sender in between replaces the collected entry. The requester then
receives an entry of its own origin, creates a `NodeView` for its own id, and `as_map()` reports
that view's baseline for its id instead of its local counter. -/

/-- Replica `1` writes `k` and pushes its view; replica `0` requests a transfer and replica `1`
    collects `k`. Replica `0` then writes `k` twice, its second broadcast reaches replica `1`, and
    the task yields `k` with origin `0` and sequence number `2` back to replica `0`. -/
theorem own_update_transferred_back_to_origin :
    ∃ c, Reachable (init 2 30000000 0) c ∧ ∃ R ∈ c.nodes,
      R.clusterView.localSequence.hasBeenPulled = true ∧
      R.clusterView.asMap.get R.localNodeId ≠ some R.clusterView.localSequence.current ∧
      (R.clusterView.otherNodesUpdateSeqs.get R.localNodeId).isSome = true :=
  exists_reachable_of_execAll _
    [.tick 10000000, .putBytes 1 "k" [1], .notifyOtherNodes 1, .deliver 1, .deliver 2, .poll 0,
      .tick 10000001, .putBytes 0 "k" [2], .tick 10000002, .putBytes 0 "k" [3], .deliver 4,
      .poll 0, .deliver 5] _ (by decide)

end Cluster

end Clacheless
