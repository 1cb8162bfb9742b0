import Mathlib.Data.List.Sort
import Mathlib.Algebra.Group.Nat.Basic

set_option autoImplicit false

/-! # Sequence numbers: `LocalSequence` and `NodeView`

Every write a replica accepts from a client is stamped with `(origin_node_id,
origin_node_update_seq)`, the sequence number drawn from the origin's `LocalSequence`. Every other
replica tracks each origin in a `NodeView`: the latest sequence number it saw, and the baseline, the
point up to which it has seen every update. The baseline only moves when the update right after it
arrives (`baseline_seq + 1 == latest_seq`); holes are left to the next state transfer.

Rust's `u64` is modelled by `Nat`. The two additions of this file wrap at `2^64`, as in a release
build (`wrappingAdd`): `generate_next` after `u64::MAX` draws and `baseline_seq + 1` at
`u64::MAX`. Both sides of every comparison are otherwise taken as they are.

The main results are about runs of `update`: the baseline moves only to the value just supplied and
never by more than one (`update_baselineSeq_cases`), and a run over a stream sorted by sequence
number that carries every number above the baseline up to `v` ends with a baseline of at least `v`
(`le_baselineSeq_updateAll`). From the default view the baseline is sound, every number up to it
was supplied, and it rises one at a time until `u64::MAX` (`baselineSeq_updateAll_sound_and_steps`),
while the latest number is simply the last one supplied and can fall below the baseline
(`updateAll_default_latestSeq_baselineSeq`). -/

namespace Clacheless

/-- Values of Rust's `u64` are the naturals below `u64Size`. -/
def u64Size : Nat := 2 ^ 64

/-- `a + b` on `u64` as a release build computes it. -/
def wrappingAdd (a b : Nat) : Nat := (a + b) % u64Size

/-- `a - b` on `u64` (for `a, b < 2^64`) as a release build computes it. -/
def wrappingSub (a b : Nat) : Nat := (a + u64Size - b) % u64Size

theorem wrappingAdd_one_of_lt {a : Nat} (h : a + 1 < u64Size) : wrappingAdd a 1 = a + 1 :=
  Nat.mod_eq_of_lt h

theorem wrappingAdd_le (a b : Nat) : wrappingAdd a b ≤ a + b := Nat.mod_le _ _

theorem wrappingAdd_lt (a b : Nat) : wrappingAdd a b < u64Size :=
  Nat.mod_lt _ (by decide)

/-- Adding one to a `u64` either does not overflow or wraps `u64::MAX` to `0`. -/
theorem wrappingAdd_one_cases {a : Nat} (h : a < u64Size) :
    wrappingAdd a 1 = a + 1 ∨ (a + 1 = u64Size ∧ wrappingAdd a 1 = 0) := by
  by_cases hlt : a + 1 < u64Size
  · exact .inl (wrappingAdd_one_of_lt hlt)
  · have hmax : a + 1 = u64Size := by omega
    exact .inr ⟨hmax, by rw [wrappingAdd, hmax, Nat.mod_self]⟩

/-! ## `LocalSequence` -/

/-- The local node id and its write counter (an `AtomicU64`). -/
structure LocalSequence where
  nodeId : Nat
  seq : Nat
deriving DecidableEq, Repr

namespace LocalSequence

/-- `LocalSequence::new`. -/
def new (localNodeId : Nat) : LocalSequence := ⟨localNodeId, 0⟩

/-- `has_been_pulled`: a sequence number has been drawn. -/
def hasBeenPulled (ls : LocalSequence) : Bool := decide (ls.seq > 0)

/-- `current`: the last sequence number drawn, `0` before the first. -/
def current (ls : LocalSequence) : Nat := ls.seq

/-- `generate_next`: `fetch_add(1) + 1`. -/
def generateNext (ls : LocalSequence) : LocalSequence × Nat :=
  ({ ls with seq := wrappingAdd ls.seq 1 }, wrappingAdd ls.seq 1)

@[simp] theorem generateNext_nodeId (ls : LocalSequence) : ls.generateNext.1.nodeId = ls.nodeId :=
  rfl

/-- The returned number is the new `current()`. -/
@[simp] theorem current_generateNext (ls : LocalSequence) :
    ls.generateNext.1.current = ls.generateNext.2 := rfl

end LocalSequence

/-! ## `NodeView` -/

/-- A `NodeView`: the `KnownSequences` pair behind its `Arc<Mutex<_>>`. Both fields are read and
    written under the lock, so the model holds the pair itself. -/
structure NodeView where
  /-- Every update of the remote up to this one has been received. -/
  baselineSeq : Nat
  /-- The last sequence number received from the remote. -/
  latestSeq : Nat
deriving DecidableEq, Repr

namespace NodeView

/-- `NodeView::default()`: `(0, 0)`. -/
def default : NodeView := ⟨0, 0⟩

instance : Inhabited NodeView := ⟨default⟩

/-- `get_baseline_sequence`. -/
def getBaselineSequence (nv : NodeView) : Nat := nv.baselineSeq

@[simp] theorem getBaselineSequence_eq (nv : NodeView) : nv.getBaselineSequence = nv.baselineSeq :=
  rfl

/-- `update`: record `newSequence` as the latest; advance the baseline to it when it is the next
    one. Returns whether the baseline advanced. -/
def update (nv : NodeView) (newSequence : Nat) : NodeView × Bool :=
  if wrappingAdd nv.baselineSeq 1 = newSequence then (⟨newSequence, newSequence⟩, true)
  else (⟨nv.baselineSeq, newSequence⟩, false)

@[simp] theorem update_latestSeq (nv : NodeView) (n : Nat) : (nv.update n).1.latestSeq = n := by
  unfold update; split <;> rfl

theorem update_baselineSeq (nv : NodeView) (n : Nat) :
    (nv.update n).1.baselineSeq =
      if wrappingAdd nv.baselineSeq 1 = n then n else nv.baselineSeq := by
  unfold update; split <;> rfl

/-- What one `update` can do to the baseline: nothing, or move it to the supplied value, which is
    at most one above it. -/
theorem update_baselineSeq_cases (nv : NodeView) (n : Nat) :
    (nv.update n).1.baselineSeq = nv.baselineSeq ∨
      ((nv.update n).1.baselineSeq = n ∧ n ≤ nv.baselineSeq + 1) := by
  rw [update_baselineSeq]
  split
  · next h => exact .inr ⟨rfl, h ▸ wrappingAdd_le _ _⟩
  · exact .inl rfl

/-- Below `u64::MAX` the baseline advances exactly on its successor. -/
theorem update_baselineSeq_of_lt (nv : NodeView) (n : Nat) (h : nv.baselineSeq + 1 < u64Size) :
    (nv.update n).1.baselineSeq = if nv.baselineSeq + 1 = n then n else nv.baselineSeq := by
  rw [update_baselineSeq, wrappingAdd_one_of_lt h]

/-- A baseline below `2^64` stays below it. -/
theorem baselineSeq_update_lt (nv : NodeView) (n : Nat) (hb : nv.baselineSeq < u64Size) :
    (nv.update n).1.baselineSeq < u64Size := by
  rw [update_baselineSeq]
  split
  · next h => exact h ▸ wrappingAdd_lt _ _
  · exact hb

/-- What one `update` does to a baseline below `2^64`: keep it, raise it by one, or wrap it from
    `u64::MAX` to `0` when `0` is supplied. -/
theorem update_baselineSeq_step (nv : NodeView) (n : Nat) (hb : nv.baselineSeq < u64Size) :
    (nv.update n).1.baselineSeq = nv.baselineSeq ∨
      (nv.update n).1.baselineSeq = nv.baselineSeq + 1 ∨
      (nv.baselineSeq + 1 = u64Size ∧ n = 0 ∧ (nv.update n).1.baselineSeq = 0) := by
  rw [update_baselineSeq]
  split
  · next h =>
    rcases wrappingAdd_one_cases hb with hw | ⟨hmax, hw⟩
    · exact .inr (.inl (h ▸ hw))
    · exact .inr (.inr ⟨hmax, h ▸ hw, h ▸ hw⟩)
  · exact .inl rfl

/-- A number up to the baseline after one `update` was up to the baseline before, or was the
    number supplied. -/
theorem le_or_eq_of_le_baselineSeq_update {nv : NodeView} {n s : Nat}
    (hs : s ≤ (nv.update n).1.baselineSeq) : s ≤ nv.baselineSeq ∨ s = n := by
  rcases update_baselineSeq_cases nv n with hb | ⟨hb, hle⟩ <;> omega

/-! ## Runs of `update` -/

/-- The view after a stream of updates, applied in order. -/
def updateAll (nv : NodeView) (ns : List Nat) : NodeView :=
  ns.foldl (fun nv n => (nv.update n).1) nv

@[simp] theorem updateAll_nil (nv : NodeView) : nv.updateAll [] = nv := rfl

@[simp] theorem updateAll_cons (nv : NodeView) (n : Nat) (ns : List Nat) :
    nv.updateAll (n :: ns) = (nv.update n).1.updateAll ns := rfl

/-- A nonzero update never lowers a baseline below `u64::MAX`. -/
theorem baselineSeq_le_update (nv : NodeView) (n : Nat) (hb : nv.baselineSeq < u64Size)
    (hn : 1 ≤ n) : nv.baselineSeq ≤ (nv.update n).1.baselineSeq ∧
      (nv.update n).1.baselineSeq < u64Size :=
  ⟨by rcases update_baselineSeq_step nv n hb with h | h | ⟨-, h0, -⟩ <;> omega,
    baselineSeq_update_lt nv n hb⟩

theorem updateAll_append (nv : NodeView) (ns ns' : List Nat) :
    nv.updateAll (ns ++ ns') = (nv.updateAll ns).updateAll ns' :=
  List.foldl_append _ _ _ _

/-- After a stream the latest sequence number is the last one supplied. -/
theorem updateAll_latestSeq (nv : NodeView) (ns : List Nat) :
    (nv.updateAll ns).latestSeq = ns.getLastD nv.latestSeq := by
  induction ns generalizing nv with
  | nil => rfl
  | cons n ns ih => rw [updateAll_cons, ih, update_latestSeq, List.getLastD_cons]

/-- Every number up to the baseline a stream reaches was supplied, or was already covered by the
    baseline before it. -/
theorem mem_of_le_baselineSeq_updateAll (nv : NodeView) (ns : List Nat) (s : Nat)
    (hs : s ≤ (nv.updateAll ns).baselineSeq) : s ≤ nv.baselineSeq ∨ s ∈ ns := by
  induction ns generalizing nv with
  | nil => exact .inl hs
  | cons n ns ih =>
    rw [updateAll_cons] at hs
    rcases ih _ hs with h | h
    · rcases le_or_eq_of_le_baselineSeq_update h with h | rfl
      · exact .inl h
      · exact .inr (List.mem_cons_self _ _)
    · exact .inr (List.mem_cons_of_mem _ h)

theorem baselineSeq_updateAll_lt (nv : NodeView) (ns : List Nat) (hb : nv.baselineSeq < u64Size) :
    (nv.updateAll ns).baselineSeq < u64Size := by
  induction ns generalizing nv with
  | nil => exact hb
  | cons n ns ih => exact ih _ (baselineSeq_update_lt nv n hb)

/-- Supplying the numbers right after the baseline, in order, raises it by as many. -/
theorem baselineSeq_updateAll_range' (k : Nat) (nv : NodeView)
    (hk : nv.baselineSeq + k < u64Size) :
    (nv.updateAll (List.range' (nv.baselineSeq + 1) k)).baselineSeq = nv.baselineSeq + k := by
  induction k generalizing nv with
  | zero => rfl
  | succ k ih =>
    have hb : (nv.update (nv.baselineSeq + 1)).1.baselineSeq = nv.baselineSeq + 1 := by
      rw [update_baselineSeq_of_lt nv _ (by omega), if_pos rfl]
    rw [List.range'_succ, updateAll_cons]
    have := ih (nv.update (nv.baselineSeq + 1)).1 (by omega)
    rw [hb] at this
    omega

/-- **The pair need not stay ordered.** From the default view, the latest sequence number is the
    last one supplied and the baseline is `0` or one of the supplied numbers, so the baseline is at
    most the latest unless an earlier number exceeds the last. -/
theorem updateAll_default_latestSeq_baselineSeq (ns : List Nat) :
    (default.updateAll ns).latestSeq = ns.getLastD 0 ∧
      ((default.updateAll ns).baselineSeq = 0 ∨ (default.updateAll ns).baselineSeq ∈ ns) ∧
      ((default.updateAll ns).baselineSeq ≤ (default.updateAll ns).latestSeq ∨
        ∃ m ∈ ns, ns.getLastD 0 < m) := by
  have hlatest := updateAll_latestSeq default ns
  have hbase : (default.updateAll ns).baselineSeq = 0 ∨ (default.updateAll ns).baselineSeq ∈ ns :=
    (mem_of_le_baselineSeq_updateAll default ns _ le_rfl).imp_left Nat.le_zero.mp
  refine ⟨hlatest, hbase, ?_⟩
  rw [hlatest]
  rcases hbase with h | h
  · exact .inl (h ▸ Nat.zero_le _)
  · by_cases hle : (default.updateAll ns).baselineSeq ≤ ns.getLastD 0
    · exact .inl hle
    · exact .inr ⟨_, h, by omega⟩

/-- Supplying `1`, `2` and then `1` again leaves the baseline at `2` above the latest `1`. -/
theorem update_redelivery_unorders_view :
    (default.updateAll [1, 2, 1]).latestSeq < (default.updateAll [1, 2, 1]).baselineSeq := by
  decide

/-- **Soundness and steps of the baseline.** From the default view, every number from `1` up to the
    baseline was supplied, and each further `update` keeps the baseline, raises it by one, or wraps
    it from `u64::MAX` to `0` when `0` is supplied. -/
theorem baselineSeq_updateAll_sound_and_steps (ns : List Nat) (n : Nat) :
    List.range' 1 (default.updateAll ns).baselineSeq ⊆ ns ∧
      ((default.updateAll (ns ++ [n])).baselineSeq = (default.updateAll ns).baselineSeq ∨
        (default.updateAll (ns ++ [n])).baselineSeq = (default.updateAll ns).baselineSeq + 1 ∨
        ((default.updateAll ns).baselineSeq + 1 = u64Size ∧ n = 0 ∧
          (default.updateAll (ns ++ [n])).baselineSeq = 0)) := by
  refine ⟨fun s hs => ?_, ?_⟩
  · rw [List.mem_range'_1] at hs
    exact (mem_of_le_baselineSeq_updateAll default ns s (by omega)).resolve_left
      (by simp [default]; omega)
  · rw [updateAll_append, updateAll_cons, updateAll_nil]
    exact update_baselineSeq_step _ n (baselineSeq_updateAll_lt default ns (by decide))

/-- Supplied `1, 2, …, u64::MAX` the baseline reaches `u64::MAX`; a `0` then wraps it to `0`. -/
theorem baselineSeq_wraps_at_u64_max :
    (default.updateAll (List.range' 1 (u64Size - 1))).baselineSeq = u64Size - 1 ∧
      (default.updateAll (List.range' 1 (u64Size - 1) ++ [0])).baselineSeq = 0 := by
  have hmax : (default.updateAll (List.range' 1 (u64Size - 1))).baselineSeq = u64Size - 1 :=
    baselineSeq_updateAll_range' (u64Size - 1) default (by decide)
  refine ⟨hmax, ?_⟩
  rw [updateAll_append, updateAll_cons, updateAll_nil, update_baselineSeq, hmax, if_pos (by decide)]

end NodeView

end Clacheless
