import Mathlib.Data.List.MinMax
import Mathlib.Data.String.Basic
import Clacheless.SkipMap

set_option autoImplicit false

/-! # The local cache

`LocalCache` is a replica's copy of the distributed cache: a `SkipMap` from key to `CacheEntry`.
`put` is last-writer-wins by the origin's wall clock, through `compare_insert` with the closure
`old.this_update_micros < this_update_micros`: an entry replaces the incumbent only when it is
strictly newer, so on a tie the entry that arrived first stays. `get` returns an entry's bytes while
`expires_micros >= now`. The purger removes entries with `expires_micros < now`.

`iter` feeds a state transfer. It collects `(key, origin_node_update_seq)` of every entry whose
origin is in the baseline map, with `this_update_micros` above the baseline and `expires_micros >
now`, sorts the pairs by sequence number (a stable sort, `insertionSort` here), and looks every key
up again when it is yielded. The baseline map holds `NodeView` sequence baselines, while the
filter compares them with the entry's timestamp.

The clock is an argument (`nowMicros`) of every function that reads it. -/

namespace Clacheless

/-! ## Errors -/

/-- `ClachelessErrorKind`. -/
inductive ClachelessErrorKind where
  | unspecified
  | connection
  | notFound
  | malformed
deriving DecidableEq, Repr

/-- `ClachelessError`: a kind and an optional message. -/
structure ClachelessError where
  kind : ClachelessErrorKind
  msg : Option String
deriving DecidableEq, Repr

/-- `ClachelessErrorKind::error_with_msg`. -/
def ClachelessErrorKind.errorWithMsg (kind : ClachelessErrorKind) (msg : String) :
    ClachelessError :=
  ⟨kind, some msg⟩

/-! ## Entries and the cache -/

/-- `CacheEntry`: the cached bytes and their replication metadata. -/
structure CacheEntry where
  thisUpdateMicros : Nat
  originNodeId : Nat
  originNodeUpdateSeq : Nat
  expiresMicros : Nat
  objectBytes : List UInt8
deriving DecidableEq, Repr

/-- `CacheEntryAndKey`: what `iter` yields. -/
structure CacheEntryAndKey where
  key : String
  ce : CacheEntry
deriving DecidableEq, Repr

/-- `LocalCache`. -/
structure LocalCache where
  cache : SkipMap String CacheEntry

/-- The arguments of one `LocalCache::put` call. -/
structure PutArgs where
  cacheKey : String
  cacheValue : List UInt8
  thisUpdateMicros : Nat
  originNodeId : Nat
  originNodeUpdateSeq : Nat
  expiresMicros : Nat
deriving DecidableEq, Repr

/-- The entry a `put` call builds. -/
def PutArgs.entry (a : PutArgs) : CacheEntry :=
  ⟨a.thisUpdateMicros, a.originNodeId, a.originNodeUpdateSeq, a.expiresMicros, a.cacheValue⟩

@[simp] theorem PutArgs.entry_thisUpdateMicros (a : PutArgs) :
    a.entry.thisUpdateMicros = a.thisUpdateMicros := rfl

/-- The `put` call that stores a streamed entry under its key. -/
def CacheEntryAndKey.putArgs (x : CacheEntryAndKey) : PutArgs :=
  ⟨x.key, x.ce.objectBytes, x.ce.thisUpdateMicros, x.ce.originNodeId, x.ce.originNodeUpdateSeq,
    x.ce.expiresMicros⟩

namespace LocalCache

/-- `LocalCache::new` (the purger it spawns is `purgeExpired`). -/
def new : LocalCache := ⟨∅⟩

/-- One pass of the loop of `purge_expired` at `nowMicros`. -/
def purgeExpired (lc : LocalCache) (nowMicros : Nat) : LocalCache :=
  ⟨lc.cache.filter fun _ ce => !decide (ce.expiresMicros < nowMicros)⟩

/-- The closure `iter` selects entries with: the entry's origin is in the baseline map, its
    `this_update_micros` is above the baseline there, and it has not expired. -/
def transferFilter (dataOriginIdAndBaseline : HashMap Nat Nat) (nowMicros : Nat)
    (ce : CacheEntry) : Bool :=
  (dataOriginIdAndBaseline.get ce.originNodeId).any fun baseline =>
    decide (ce.thisUpdateMicros > baseline) && decide (ce.expiresMicros > nowMicros)

/-- The key of `sort_by_key`: the sequence number of a collected pair. -/
def updateSeqLe (a b : String × Nat) : Prop := a.2 ≤ b.2

instance : DecidableRel updateSeqLe := fun a b => inferInstanceAs (Decidable (a.2 ≤ b.2))

instance : IsTotal (String × Nat) updateSeqLe := ⟨fun a b => le_total a.2 b.2⟩

instance : IsTrans (String × Nat) updateSeqLe := ⟨fun _ _ _ => le_trans⟩

/-- The collection phase of `iter`: `(key, origin_node_update_seq)` of the selected entries,
    stably sorted by sequence number. -/
def keyByUpdateSeq (lc : LocalCache) (dataOriginIdAndBaseline : HashMap Nat Nat)
    (nowMicros : Nat) : List (String × Nat) :=
  (lc.cache.entries.filterMap fun e =>
    if transferFilter dataOriginIdAndBaseline nowMicros e.2
    then some (e.1, e.2.originNodeUpdateSeq) else none).insertionSort updateSeqLe

/-- The on-demand lookup of one collected key when `iter` yields it. -/
def lookupForTransfer (lc : LocalCache) (key : String) : Option CacheEntryAndKey :=
  (lc.cache.get key).map fun ce => ⟨key, ce⟩

/-- `iter`, consumed with no concurrent write: collect, then look every key up. -/
def iter (lc : LocalCache) (dataOriginIdAndBaseline : HashMap Nat Nat) (nowMicros : Nat) :
    List CacheEntryAndKey :=
  (lc.keyByUpdateSeq dataOriginIdAndBaseline nowMicros).filterMap fun e => lc.lookupForTransfer e.1

/-- `get`: the bytes of a non-expired entry. -/
def get (lc : LocalCache) (cacheKey : String) (nowMicros : Nat) :
    Except ClachelessError (List UInt8) :=
  match (lc.cache.get cacheKey).filter (fun cde => decide (cde.expiresMicros ≥ nowMicros)) with
  | some cde => .ok cde.objectBytes
  | none => .error (ClachelessErrorKind.notFound.errorWithMsg ("No entry for " ++ cacheKey ++ "."))

/-- `put`: insert unless the incumbent is at least as new. Returns `Ok(())` on every path, so the
    model returns the new cache only. -/
def put (lc : LocalCache) (cacheKey : String) (cacheValue : List UInt8)
    (thisUpdateMicros originNodeId originNodeUpdateSeq expiresMicros : Nat) : LocalCache :=
  ⟨lc.cache.compareInsert cacheKey
    ⟨thisUpdateMicros, originNodeId, originNodeUpdateSeq, expiresMicros, cacheValue⟩
    fun oldCde => decide (oldCde.thisUpdateMicros < thisUpdateMicros)⟩

/-- `put` with its arguments bundled. -/
def putArgs (lc : LocalCache) (a : PutArgs) : LocalCache :=
  lc.put a.cacheKey a.cacheValue a.thisUpdateMicros a.originNodeId a.originNodeUpdateSeq
    a.expiresMicros

/-! ## One lemma per operation -/

/-- The entry last-writer-wins keeps when `ce` is put over `old`. -/
def lww (old : Option CacheEntry) (ce : CacheEntry) : CacheEntry :=
  match old with
  | some o => if o.thisUpdateMicros < ce.thisUpdateMicros then ce else o
  | none => ce

theorem get_putArgs (lc : LocalCache) (a : PutArgs) (k : String) :
    (lc.putArgs a).cache.get k =
      if k = a.cacheKey then some (lww (lc.cache.get a.cacheKey) a.entry) else lc.cache.get k := by
  unfold putArgs put
  rw [SkipMap.get_compareInsert]
  split
  · cases lc.cache.get a.cacheKey <;> simp [lww, PutArgs.entry]
  · rfl

theorem get_put (lc : LocalCache) (k : String) (v : List UInt8) (t o s e : Nat) (j : String) :
    (lc.put k v t o s e).cache.get j =
      if j = k then some (lww (lc.cache.get k) ⟨t, o, s, e, v⟩) else lc.cache.get j :=
  get_putArgs lc ⟨k, v, t, o, s, e⟩ j

@[simp] theorem get_purgeExpired (lc : LocalCache) (nowMicros : Nat) (k : String) :
    (lc.purgeExpired nowMicros).cache.get k =
      (lc.cache.get k).filter fun ce => !decide (ce.expiresMicros < nowMicros) :=
  SkipMap.get_filter _ _ _

/-- The purger removes only entries that `get` no longer returns: a purge at `nowMicros` changes
    no read at that clock or later. -/
theorem get_purgeExpired_of_le (lc : LocalCache) (k : String) (nowMicros nowMicros' : Nat)
    (h : nowMicros ≤ nowMicros') :
    (lc.purgeExpired nowMicros).get k nowMicros' = lc.get k nowMicros' := by
  unfold get
  rw [get_purgeExpired]
  cases lc.cache.get k with
  | none => rfl
  | some ce =>
    by_cases hexp : nowMicros' ≤ ce.expiresMicros
    · simp [Option.filter, hexp, show ¬ ce.expiresMicros < nowMicros by omega]
    · by_cases hp : ce.expiresMicros < nowMicros <;> simp [Option.filter, hexp, hp]

/-- A purge at `12` drops the entry that expired at `10`, and changes no read at `15`. -/
theorem get_purgeExpired_of_le_example :
    ((LocalCache.new.put "k" [1] 5 1 1 10).purgeExpired 12).cache.get "k" = none ∧ 12 ≤ 15 ∧
      ((LocalCache.new.put "k" [1] 5 1 1 10).purgeExpired 12).get "k" 15 =
        (LocalCache.new.put "k" [1] 5 1 1 10).get "k" 15 :=
  ⟨by decide, by decide, get_purgeExpired_of_le _ "k" 12 15 (by decide)⟩

/-- `get` succeeds exactly on a stored entry with `expires_micros >= now`, with its bytes. -/
theorem get_eq_ok_iff (lc : LocalCache) (k : String) (nowMicros : Nat) (b : List UInt8) :
    lc.get k nowMicros = .ok b ↔
      ∃ ce, lc.cache.get k = some ce ∧ nowMicros ≤ ce.expiresMicros ∧ ce.objectBytes = b := by
  unfold get
  cases hce : lc.cache.get k with
  | none => simp
  | some ce => by_cases hexp : nowMicros ≤ ce.expiresMicros <;> simp [Option.filter, hexp]

/-- `lww` never goes back in time. -/
theorem le_lww_thisUpdateMicros (old : Option CacheEntry) (ce : CacheEntry) :
    ce.thisUpdateMicros ≤ (lww old ce).thisUpdateMicros ∧
      ∀ o, old = some o → o.thisUpdateMicros ≤ (lww old ce).thisUpdateMicros := by
  cases old with
  | none => simp [lww]
  | some o =>
    simp only [lww]
    split
    · next h => exact ⟨le_rfl, fun o' ho => by cases ho; omega⟩
    · next h => exact ⟨by omega, fun o' ho => by cases ho; exact le_rfl⟩

/-! ## Delivery order

Two sequences of `put` calls with the same set of argument tuples can leave different entries:
on a tie of `this_update_micros` at the top, the tuple that arrives first stays. When the newest
tuple for a key is unique, every order gives the same entry. -/

/-- The cache after a sequence of `put` calls, applied in order. -/
def putAll (lc : LocalCache) (as : List PutArgs) : LocalCache := as.foldl putArgs lc

/-- What one `put` does to the entry under `k`. -/
def putStep (k : String) (o : Option CacheEntry) (a : PutArgs) : Option CacheEntry :=
  if k = a.cacheKey then some (lww o a.entry) else o

theorem get_putAll (lc : LocalCache) (as : List PutArgs) (k : String) :
    (lc.putAll as).cache.get k = as.foldl (putStep k) (lc.cache.get k) := by
  induction as generalizing lc with
  | nil => rfl
  | cons a as ih =>
    rw [putAll, List.foldl_cons, ← putAll, ih, List.foldl_cons, get_putArgs, putStep]
    by_cases hk : k = a.cacheKey
    · subst hk; simp
    · simp [hk]

theorem lww_some_lww_self (o : Option CacheEntry) (x : CacheEntry) :
    lww (some (lww o x)) x = lww o x :=
  if_neg (not_lt.mpr (le_lww_thisUpdateMicros o x).1)

theorem lww_some_lww_of_lt (o : Option CacheEntry) (a x : CacheEntry)
    (h : a.thisUpdateMicros < x.thisUpdateMicros) : lww (some (lww o a)) x = lww o x := by
  cases o with
  | none => simp [lww, h]
  | some e =>
    by_cases hea : e.thisUpdateMicros < a.thisUpdateMicros
    · simp [lww, hea, h, hea.trans h]
    · simp [lww, hea]

theorem foldl_putStep_of_not_mem (k : String) (o : Option CacheEntry) (as : List PutArgs)
    (h : ∀ a ∈ as, a.cacheKey ≠ k) : as.foldl (putStep k) o = o := by
  induction as with
  | nil => rfl
  | cons a as ih =>
    rw [List.foldl_cons, putStep, if_neg (Ne.symm (h a (by simp))),
      ih fun b hb => h b (by simp [hb])]

/-- An entry no put of the sequence is newer than stays. -/
theorem foldl_putStep_of_forall_le (k : String) (e : CacheEntry) (as : List PutArgs)
    (h : ∀ a ∈ as, a.cacheKey = k → a.thisUpdateMicros ≤ e.thisUpdateMicros) :
    as.foldl (putStep k) (some e) = some e := by
  induction as with
  | nil => rfl
  | cons a as ih =>
    have ha := h a (by simp)
    rw [List.foldl_cons, putStep]
    split
    · next hk =>
      have hle := ha hk.symm
      rw [show lww (some e) a.entry = e by simp [lww]; omega]
      exact ih fun b hb => h b (by simp [hb])
    · exact ih fun b hb => h b (by simp [hb])

/-- An entry at least as new as `t` under `k` stays at least as new. -/
theorem foldl_putStep_mono (k : String) (t : Nat) (as : List PutArgs) (o : Option CacheEntry)
    (h : ∃ e, o = some e ∧ t ≤ e.thisUpdateMicros) :
    ∃ e, as.foldl (putStep k) o = some e ∧ t ≤ e.thisUpdateMicros := by
  induction as generalizing o with
  | nil => exact h
  | cons a as ih =>
    refine ih _ ?_
    obtain ⟨e, rfl, ht⟩ := h
    unfold putStep
    split
    · exact ⟨_, rfl, ht.trans ((le_lww_thisUpdateMicros _ _).2 e rfl)⟩
    · exact ⟨e, rfl, ht⟩

/-- After a sequence of puts, the key of each put holds an entry at least as new as it. -/
theorem le_get_putAll_of_mem (lc : LocalCache) (as : List PutArgs) (a : PutArgs) (ha : a ∈ as) :
    ∃ e, (lc.putAll as).cache.get a.cacheKey = some e ∧
      a.thisUpdateMicros ≤ e.thisUpdateMicros := by
  obtain ⟨pre, post, rfl⟩ := List.append_of_mem ha
  rw [get_putAll, List.foldl_append, List.foldl_cons]
  exact foldl_putStep_mono _ _ post _
    ⟨_, by rw [putStep, if_pos rfl], (le_lww_thisUpdateMicros _ a.entry).1⟩

/-- With a strictly newest put `x` for `k`, the result under `k` is `x` put over the start. -/
theorem foldl_putStep_of_newest (k : String) (x : PutArgs) (as : List PutArgs)
    (hx : x ∈ as) (hxk : x.cacheKey = k)
    (hnew : ∀ y ∈ as, y.cacheKey = k → y = x ∨ y.thisUpdateMicros < x.thisUpdateMicros)
    (o : Option CacheEntry) : as.foldl (putStep k) o = some (lww o x.entry) := by
  induction as generalizing o with
  | nil => simp at hx
  | cons a as ih =>
    have hnew' : ∀ y ∈ as, y.cacheKey = k → y = x ∨ y.thisUpdateMicros < x.thisUpdateMicros :=
      fun y hy => hnew y (by simp [hy])
    rw [List.foldl_cons, putStep]
    by_cases hk : k = a.cacheKey
    · rw [if_pos hk]
      rcases hnew a (by simp) hk.symm with rfl | hlt
      · by_cases hxr : a ∈ as
        · rw [ih hxr hnew', lww_some_lww_self]
        · refine foldl_putStep_of_forall_le k _ as fun y hy hyk => ?_
          rcases hnew' y hy hyk with rfl | hlt
          · exact absurd hy hxr
          · exact hlt.le.trans (le_lww_thisUpdateMicros o a.entry).1
      · have hxr : x ∈ as := (List.mem_cons.mp hx).resolve_left fun h => (h ▸ hlt).false
        rw [ih hxr hnew', lww_some_lww_of_lt o a.entry x.entry hlt]
    · rw [if_neg hk]
      exact ih ((List.mem_cons.mp hx).resolve_left fun h => hk (h ▸ hxk).symm) hnew' o

/-- Two delivery orders of the same set of puts store the same entry under every key whose newest
    tuple is unique. -/
theorem putAll_get_eq_of_unique_newest (lc : LocalCache) (as bs : List PutArgs)
    (hset : ∀ a, a ∈ as ↔ a ∈ bs) (k : String)
    (huniq : ∀ x ∈ as, ∀ y ∈ as, x.cacheKey = k → y.cacheKey = k →
      (∀ z ∈ as, z.cacheKey = k → z.thisUpdateMicros ≤ x.thisUpdateMicros) →
      y.thisUpdateMicros = x.thisUpdateMicros → y = x) :
    (lc.putAll as).cache.get k = (lc.putAll bs).cache.get k := by
  rw [get_putAll, get_putAll]
  cases hmax : (as.filter (·.cacheKey = k)).argmax (·.thisUpdateMicros) with
  | none =>
    rw [List.argmax_eq_none, List.filter_eq_nil_iff] at hmax
    have has : ∀ a ∈ as, a.cacheKey ≠ k := fun a ha => by simpa using hmax a ha
    rw [foldl_putStep_of_not_mem k _ as has,
      foldl_putStep_of_not_mem k _ bs fun b hb => has b ((hset b).mpr hb)]
  | some x =>
    have hx : x ∈ as ∧ x.cacheKey = k := by simpa using List.argmax_mem hmax
    have hle : ∀ z ∈ as, z.cacheKey = k → z.thisUpdateMicros ≤ x.thisUpdateMicros :=
      fun z hz hzk => List.le_of_mem_argmax (by simpa using ⟨hz, hzk⟩) hmax
    have hnew : ∀ y, y ∈ as → y.cacheKey = k → y = x ∨ y.thisUpdateMicros < x.thisUpdateMicros := by
      intro y hy hyk
      rcases (hle y hy hyk).lt_or_eq with h | h
      · exact .inr h
      · exact .inl (huniq x hx.1 y hy hx.2 hyk hle h)
    rw [foldl_putStep_of_newest k x as hx.1 hx.2 hnew,
      foldl_putStep_of_newest k x bs ((hset x).mp hx.1) hx.2
        fun y hy => hnew y ((hset y).mpr hy)]

theorem putAll_get_eq_of_unique_newest_example :
    let a : PutArgs := ⟨"k", [1], 1, 1, 1, 10⟩
    let b : PutArgs := ⟨"k", [2], 2, 2, 1, 10⟩
    (LocalCache.new.putAll [a, b]).cache.get "k" = (LocalCache.new.putAll [b, a]).cache.get "k" :=
  putAll_get_eq_of_unique_newest _ _ _ (fun _ => by simp [or_comm]) _ (by decide)

/-- Two puts under one key with equal `this_update_micros`, in either order: the same set of
    tuples, two different stored entries. -/
theorem putAll_tie_keeps_first_arrival :
    let a : PutArgs := ⟨"k", [1], 1, 1, 1, 10⟩
    let b : PutArgs := ⟨"k", [2], 1, 2, 1, 10⟩
    (∀ x, x ∈ [a, b] ↔ x ∈ [b, a]) ∧
      (LocalCache.new.putAll [a, b]).cache.get "k" ≠ (LocalCache.new.putAll [b, a]).cache.get "k" :=
  ⟨fun _ => by simp [or_comm], by decide⟩

/-! ## Runs of puts and purges

The purger deletes an entry once it expires and keeps no trace of it, after which `put` accepts an
older entry for the key. While no purge removes the key's entry, the stored entry only gets
newer. -/

/-- A step of the local cache that changes it: a `put` or one pass of the purger. -/
inductive CacheOp where
  | put (a : PutArgs)
  | purge (nowMicros : Nat)
deriving DecidableEq, Repr

/-- One step. -/
def apply (lc : LocalCache) : CacheOp → LocalCache
  | .put a => lc.putArgs a
  | .purge nowMicros => lc.purgeExpired nowMicros

@[simp] theorem apply_put (lc : LocalCache) (a : PutArgs) : lc.apply (.put a) = lc.putArgs a := rfl

@[simp] theorem apply_purge (lc : LocalCache) (nowMicros : Nat) :
    lc.apply (.purge nowMicros) = lc.purgeExpired nowMicros := rfl

/-- A run of steps. -/
def run (lc : LocalCache) (ops : List CacheOp) : LocalCache := ops.foldl apply lc

@[simp] theorem run_nil (lc : LocalCache) : lc.run [] = lc := rfl

@[simp] theorem run_cons (lc : LocalCache) (op : CacheOp) (ops : List CacheOp) :
    lc.run (op :: ops) = (lc.apply op).run ops := rfl

theorem run_append (lc : LocalCache) (ops ops' : List CacheOp) :
    lc.run (ops ++ ops') = (lc.run ops).run ops' := List.foldl_append _ _ _ _

/-- No purge step of the run removes the entry stored under `k`. -/
def KeepsKey (k : String) : LocalCache → List CacheOp → Prop
  | _, [] => True
  | lc, .put a :: ops => KeepsKey k (lc.putArgs a) ops
  | lc, .purge nowMicros :: ops =>
    (∀ ce, lc.cache.get k = some ce → ¬ ce.expiresMicros < nowMicros) ∧
      KeepsKey k (lc.purgeExpired nowMicros) ops

/-- While no purge removes it, the entry under `k` never gets older than `t`. -/
theorem run_keeps_newer (k : String) (t : Nat) (ops : List CacheOp) (lc : LocalCache)
    (hkeep : KeepsKey k lc ops) (hce : ∃ ce, lc.cache.get k = some ce ∧ t ≤ ce.thisUpdateMicros) :
    ∃ ce, (lc.run ops).cache.get k = some ce ∧ t ≤ ce.thisUpdateMicros := by
  induction ops generalizing lc with
  | nil => exact hce
  | cons op ops ih =>
    obtain ⟨ce, hget, ht⟩ := hce
    cases op with
    | put a =>
      refine ih _ hkeep ?_
      rw [apply_put, get_putArgs]
      by_cases hk : k = a.cacheKey
      · subst hk
        exact ⟨_, if_pos rfl, ht.trans ((le_lww_thisUpdateMicros _ _).2 ce hget)⟩
      · exact ⟨ce, by rw [if_neg hk, hget], ht⟩
    | purge nowMicros =>
      refine ih _ hkeep.2 ⟨ce, ?_, ht⟩
      rw [apply_purge, get_purgeExpired, hget]
      simp [Option.filter, hkeep.1 ce hget]

/-- **No resurrection while the newer entry is kept.** A read after a `put` of `newer` returns,
    if anything, the bytes of an entry at least as new as `newer`, unless a purge in between
    removed the key's entry. -/
theorem get_after_put_not_superseded (lc : LocalCache) (pre post : List CacheOp) (newer : PutArgs)
    (hkeep : KeepsKey newer.cacheKey ((lc.run pre).putArgs newer) post) (nowMicros : Nat)
    (b : List UInt8)
    (hget : (lc.run (pre ++ CacheOp.put newer :: post)).get newer.cacheKey nowMicros = .ok b) :
    ∃ ce, (lc.run (pre ++ CacheOp.put newer :: post)).cache.get newer.cacheKey = some ce ∧
      ce.objectBytes = b ∧ newer.thisUpdateMicros ≤ ce.thisUpdateMicros := by
  obtain ⟨ce, hce, -, hb⟩ := (get_eq_ok_iff _ _ _ _).mp hget
  rw [run_append, run_cons, apply_put] at hce ⊢
  obtain ⟨ce', hce', ht⟩ := run_keeps_newer newer.cacheKey newer.thisUpdateMicros post _ hkeep
    ⟨_, by rw [get_putArgs, if_pos rfl],
      (le_lww_thisUpdateMicros ((lc.run pre).cache.get newer.cacheKey) newer.entry).1⟩
  rw [hce'] at hce
  cases hce
  exact ⟨ce, hce', hb, ht⟩

theorem get_after_put_not_superseded_example :
    ∃ ce, (LocalCache.new.run ([] ++ CacheOp.put ⟨"k", [1], 10, 1, 1, 20⟩ :: [.purge 15])).cache.get
      "k" = some ce ∧ ce.objectBytes = [1] ∧ 10 ≤ ce.thisUpdateMicros :=
  get_after_put_not_superseded LocalCache.new [] [.purge 15] ⟨"k", [1], 10, 1, 1, 20⟩
    ⟨fun ce h => by
      obtain rfl : (⟨10, 1, 1, 20, [1]⟩ : CacheEntry) = ce := Option.some.inj h
      decide, trivial⟩ 15 [1] rfl

/-- An entry newer than `older` is put, expires and is purged; `older`, longer-lived, is then
    accepted and read back. -/
theorem purge_then_older_put_is_read :
    let newer : PutArgs := ⟨"k", [1], 10, 1, 2, 20⟩
    let older : PutArgs := ⟨"k", [2], 5, 1, 1, 100⟩
    older.thisUpdateMicros < newer.thisUpdateMicros ∧
      (LocalCache.new.run [.put newer, .purge 21, .put older]).get "k" 21 = .ok older.cacheValue :=
  ⟨by decide, rfl⟩

/-! ## What a state transfer sends -/

theorem mem_keyByUpdateSeq (lc : LocalCache) (m : HashMap Nat Nat) (nowMicros : Nat) (k : String)
    (s : Nat) :
    (k, s) ∈ lc.keyByUpdateSeq m nowMicros ↔
      ∃ ce, lc.cache.get k = some ce ∧ transferFilter m nowMicros ce = true ∧
        ce.originNodeUpdateSeq = s := by
  rw [keyByUpdateSeq, (List.perm_insertionSort _ _).mem_iff, List.mem_filterMap]
  constructor
  · rintro ⟨⟨k', ce⟩, hmem, h⟩
    by_cases hf : transferFilter m nowMicros ce = true
    · simp only [hf, if_true, Option.some.injEq, Prod.mk.injEq] at h
      obtain ⟨rfl, rfl⟩ := h
      exact ⟨ce, (SkipMap.mem_entries_iff _ _ _).mp hmem, hf, rfl⟩
    · simp [hf] at h
  · rintro ⟨ce, hget, hf, rfl⟩
    exact ⟨(k, ce), (SkipMap.mem_entries_iff _ _ _).mpr hget, by simp [hf]⟩

theorem keyByUpdateSeq_sorted (lc : LocalCache) (m : HashMap Nat Nat) (nowMicros : Nat) :
    (lc.keyByUpdateSeq m nowMicros).Sorted updateSeqLe :=
  List.sorted_insertionSort _ _

theorem keyByUpdateSeq_nodup_keys (lc : LocalCache) (m : HashMap Nat Nat) (nowMicros : Nat) :
    ((lc.keyByUpdateSeq m nowMicros).map Prod.fst).Nodup := by
  rw [keyByUpdateSeq, ((List.perm_insertionSort _ _).map Prod.fst).nodup_iff, List.Nodup,
    List.pairwise_map]
  have hfst : ∀ (e : String × CacheEntry) y, y ∈ (if transferFilter m nowMicros e.2
      then some (e.1, e.2.originNodeUpdateSeq) else none) → y.1 = e.1 := by
    intro e y hy
    split at hy
    · rw [Option.mem_def, Option.some.injEq] at hy; rw [← hy]
    · exact absurd hy (by simp)
  exact (List.pairwise_map.mp lc.cache.sorted).filterMap _ fun e e' hlt y hy y' hy' => by
    rw [hfst e y hy, hfst e' y' hy']; exact hlt.ne

/-- Every collected key is found again, with the sequence number it was collected with. -/
theorem lookupForTransfer_of_mem (lc : LocalCache) (m : HashMap Nat Nat) (nowMicros : Nat)
    (e : String × Nat) (he : e ∈ lc.keyByUpdateSeq m nowMicros) :
    ∃ ce, lc.lookupForTransfer e.1 = some ⟨e.1, ce⟩ ∧ ce.originNodeUpdateSeq = e.2 ∧
      lc.cache.get e.1 = some ce ∧ transferFilter m nowMicros ce = true := by
  obtain ⟨ce, hget, hf, hs⟩ := (mem_keyByUpdateSeq lc m nowMicros e.1 e.2).mp he
  exact ⟨ce, by simp [lookupForTransfer, hget], hs, hget, hf⟩

theorem mem_iter_iff (lc : LocalCache) (m : HashMap Nat Nat) (nowMicros : Nat)
    (x : CacheEntryAndKey) :
    x ∈ lc.iter m nowMicros ↔
      lc.cache.get x.key = some x.ce ∧ transferFilter m nowMicros x.ce = true := by
  rw [iter, List.mem_filterMap]
  constructor
  · rintro ⟨e, he, hx⟩
    obtain ⟨ce, hl, -, hget, hf⟩ := lookupForTransfer_of_mem lc m nowMicros e he
    rw [hl, Option.some.injEq] at hx
    subst hx
    exact ⟨hget, hf⟩
  · rintro ⟨hget, hf⟩
    refine ⟨(x.key, x.ce.originNodeUpdateSeq),
      (mem_keyByUpdateSeq lc m nowMicros _ _).mpr ⟨x.ce, hget, hf, rfl⟩, ?_⟩
    simp [lookupForTransfer, hget]

/-- An empty baseline map selects nothing. -/
theorem iter_eq_nil_of_isEmpty (lc : LocalCache) (m : HashMap Nat Nat) (nowMicros : Nat)
    (hm : m.isEmpty = true) : lc.iter m nowMicros = [] :=
  List.eq_nil_iff_forall_not_mem.mpr fun x hx => by
    have hf := ((mem_iter_iff lc m nowMicros x).mp hx).2
    rw [transferFilter, (SkipMap.isEmpty_iff m).mp hm] at hf
    exact Bool.false_ne_true hf

/-- Read with no concurrent write, `iter` yields the collected pairs' entries in collection
    order. -/
theorem iter_map_key_seq (lc : LocalCache) (m : HashMap Nat Nat) (nowMicros : Nat) :
    (lc.iter m nowMicros).map (fun x => (x.key, x.ce.originNodeUpdateSeq)) =
      lc.keyByUpdateSeq m nowMicros := by
  rw [iter]
  generalize hl : lc.keyByUpdateSeq m nowMicros = l
  have hmem : ∀ e ∈ l, e ∈ lc.keyByUpdateSeq m nowMicros := fun e he => hl ▸ he
  clear hl
  induction l with
  | nil => rfl
  | cons e l ih =>
    obtain ⟨ce, hl, hs, -⟩ := lookupForTransfer_of_mem lc m nowMicros e (hmem e (by simp))
    simp only [List.filterMap_cons, hl, List.map_cons, hs,
      ih fun e' he' => hmem e' (by simp [he'])]

/-- `iter` yields every key at most once. -/
theorem iter_nodup_keys (lc : LocalCache) (m : HashMap Nat Nat) (nowMicros : Nat) :
    ((lc.iter m nowMicros).map (·.key)).Nodup := by
  have h := congrArg (List.map Prod.fst) (iter_map_key_seq lc m nowMicros)
  rw [List.map_map] at h
  exact (h ▸ keyByUpdateSeq_nodup_keys lc m nowMicros :)

/-- `iter` yields entries in nondecreasing `origin_node_update_seq`. -/
theorem iter_sorted (lc : LocalCache) (m : HashMap Nat Nat) (nowMicros : Nat) :
    ((lc.iter m nowMicros).map (·.ce.originNodeUpdateSeq)).Sorted (· ≤ ·) := by
  have h := congrArg (List.map Prod.snd) (iter_map_key_seq lc m nowMicros)
  rw [List.map_map] at h
  rw [show (fun x : CacheEntryAndKey => x.ce.originNodeUpdateSeq) =
    Prod.snd ∘ fun x => (x.key, x.ce.originNodeUpdateSeq) from rfl, h]
  exact List.pairwise_map.mpr (keyByUpdateSeq_sorted lc m nowMicros)

/-- **What a state transfer streams.** Read with no concurrent write, `iter` yields exactly the
    entries the cache holds whose origin is in the request, whose `this_update_micros` is above
    that origin's baseline and which have not expired, each key once, in nondecreasing
    `origin_node_update_seq`. -/
theorem iter_yields_requested_entries (lc : LocalCache) (m : HashMap Nat Nat) (nowMicros : Nat) :
    (∀ x, x ∈ lc.iter m nowMicros ↔ lc.cache.get x.key = some x.ce ∧
      ∃ baseline, m.get x.ce.originNodeId = some baseline ∧
        baseline < x.ce.thisUpdateMicros ∧ nowMicros < x.ce.expiresMicros) ∧
      ((lc.iter m nowMicros).map (·.key)).Nodup ∧
      ((lc.iter m nowMicros).map (·.ce.originNodeUpdateSeq)).Sorted (· ≤ ·) := by
  refine ⟨fun x => (mem_iter_iff lc m nowMicros x).trans ?_, iter_nodup_keys lc m nowMicros,
    iter_sorted lc m nowMicros⟩
  cases hb : m.get x.ce.originNodeId <;> simp [transferFilter, hb]

/-- The receiver's baseline for origin `5` is `1`, so it has update `1`; `iter` still yields that
    update, because `this_update_micros` is compared with the baseline. -/
theorem iter_yields_update_at_receiver_baseline :
    let ce : CacheEntry := ⟨1700000000000000, 5, 1, 1700003600000000, [1]⟩
    (LocalCache.new.put "k" [1] 1700000000000000 5 1 1700003600000000).iter
        ((∅ : HashMap Nat Nat).insert 5 1) 1700000000000001 = [⟨"k", ce⟩] ∧
      ¬ ce.originNodeUpdateSeq > 1 :=
  ⟨by decide, by decide⟩

/-! ## Reads and transfers at the expiry boundary -/

/-- `get` and `iter` disagree on an entry at its `expires_micros`: `get` still returns it (its
    filter is `expires_micros >= now`), while `iter`, which asks for `expires_micros > now`, never
    selects it. -/
theorem get_ok_iter_skips_at_expiry (lc : LocalCache) (k : String) (ce : CacheEntry)
    (hk : lc.cache.get k = some ce) :
    lc.get k ce.expiresMicros = .ok ce.objectBytes ∧ ∀ m, ⟨k, ce⟩ ∉ lc.iter m ce.expiresMicros := by
  refine ⟨(get_eq_ok_iff lc k _ _).mpr ⟨ce, hk, le_rfl, rfl⟩, fun m hx => ?_⟩
  have hf := ((mem_iter_iff lc m _ _).mp hx).2
  cases hm : m.get ce.originNodeId <;> simp [transferFilter, hm] at hf

theorem get_ok_iter_skips_at_expiry_example :
    let lc := LocalCache.new.put "k" [1] 5 1 1 10
    lc.cache.get "k" = some ⟨5, 1, 1, 10, [1]⟩ ∧
      (lc.get "k" 10 = .ok [1] ∧ ∀ m, ⟨"k", ⟨5, 1, 1, 10, [1]⟩⟩ ∉ lc.iter m 10) :=
  ⟨rfl,
    get_ok_iter_skips_at_expiry (LocalCache.new.put "k" [1] 5 1 1 10) "k" ⟨5, 1, 1, 10, [1]⟩ rfl⟩

end LocalCache

end Clacheless
