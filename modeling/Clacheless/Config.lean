import Mathlib.Data.Nat.Digits
import Clacheless.DistributedCache

set_option autoImplicit false

/-! # Configuration from the environment

`clacheless-bin` reads its configuration from environment variables through `env_or_default`; an
unset variable is `none` here. `POD_NAME` gives the local ordinal: the text after its last `-`,
parsed as a `u32` (`extract_ordinal_from_string`), and `0` when that fails. `CLACHELESS_TTL` gives
the time to live in seconds, parsed as a `u64` (`3600` when that fails), times `1_000_000`.
`run_async` starts the replica with both (`Config.newDistributedCache`).

Rust's integer parsing, `from_str_radix` for an unsigned type, is `parseUnsigned`: an optional
leading `+`, then at least one decimal digit, with a checked multiply-and-add per digit. Printing
an ordinal after any prefix and a `-` and extracting it gives the ordinal back, and what
`extract_ordinal_from_string` accepts is exactly a suffix after the last `-` that parses
(`extractOrdinalFromString_inverts_pod_name`). The ordinal is always a `u32`, so it is the low half
of the node id (`localNodeId_newDistributedCache`).

The product with `1_000_000` wraps in a release build, and a TTL of `0` parses, so a replica can
store entries that are born expired (`putBytes_ttl_zero_born_expired`). -/

namespace Clacheless

/-- Values of Rust's `u32` are the naturals below `u32Size`. -/
def u32Size : Nat := 2 ^ 32

/-- `a * b` on `u64` as a release build computes it. -/
def wrappingMul (a b : Nat) : Nat := (a * b) % u64Size

/-! ## Parsing unsigned integers -/

/-- `char::to_digit(10)`: `(c as u32).wrapping_sub('0' as u32)`, a digit when below `10`. -/
def toDigit (c : Char) : Option Nat :=
  let digit := (c.toNat + u32Size - '0'.toNat) % u32Size
  if digit < 10 then some digit else none

/-- The digit loop of `from_str_radix` from `acc`: `result * 10 + digit` by `checked_mul` and
    `checked_add`, so a value that leaves `0..bound` fails, and so does a non-digit. -/
def parseDigits (bound acc : Nat) : List Char → Option Nat
  | [] => some acc
  | c :: cs => (toDigit c).bind fun digit =>
    if acc * 10 + digit < bound then parseDigits bound (acc * 10 + digit) cs else none

/-- `from_str_radix(src, 10)` for an unsigned type whose values are the naturals below `bound`:
    an empty string and a lone sign fail, one leading `+` is skipped, and the rest goes through
    the digit loop. `none` stands for every `ParseIntError`. -/
def parseUnsigned (bound : Nat) (src : String) : Option Nat :=
  match src.toList with
  | [] => none
  | ['+'] | ['-'] => none
  | '+' :: digits => parseDigits bound 0 digits
  | digits => parseDigits bound 0 digits

/-- The text after the last `sep`: `match_indices(sep).next_back()`, then
    `split_at(index + 1).1` (for a one-byte `sep`). `extract_ordinal_from_string` scans for `-`,
    `get_address_template_port` for `:`. -/
def afterLast (sep : Char) : List Char → Option (List Char)
  | [] => none
  | c :: cs =>
    match afterLast sep cs with
    | some rest => some rest
    | none => if c = sep then some cs else none

/-- `extract_ordinal_from_string`: the text after the last `-`, parsed as a `u32`. -/
def extractOrdinalFromString (value : String) : Option Nat :=
  (afterLast '-' value.toList).bind fun ordinalString => parseUnsigned u32Size ⟨ordinalString⟩

namespace Config

/-- `address_template`, given `CLACHELESS_ADDR_TEMPLATE`. -/
def addressTemplate (addrTemplate : Option String) : String :=
  addrTemplate.getD "statefulsetname-ORDINAL.headlessservicename.namespace.svc:9090"

/-- `local_node_id`, given `POD_NAME`. -/
def localNodeId (podName : Option String) : Nat :=
  (extractOrdinalFromString (podName.getD "clacheless-0")).getD 0

/-- `cache_item_time_to_live_micros`, given `CLACHELESS_TTL`. -/
def cacheItemTimeToLiveMicros (ttl : Option String) : Nat :=
  wrappingMul ((parseUnsigned u64Size (ttl.getD "3600")).getD 3600) 1000000

/-- The `DistributedCache::new` call of `run_async` at clock `nowMicros`, given `POD_NAME` and
    `CLACHELESS_TTL`. -/
def newDistributedCache (podName ttl : Option String) (nowMicros : Nat) : DistributedCache :=
  DistributedCache.new (localNodeId podName) (cacheItemTimeToLiveMicros ttl) nowMicros

end Config

/-! ## Digits -/

theorem toDigit_digitChar : ∀ d < 10, toDigit (Nat.digitChar d) = some d := by
  decide

/-- Every character of a decimal rendering is a digit or was already there. -/
theorem mem_toDigitsCore (fuel n : Nat) (ds : List Char) (c : Char)
    (h : c ∈ Nat.toDigitsCore 10 fuel n ds) : c ∈ ds ∨ ∃ d < 10, c = Nat.digitChar d := by
  induction fuel generalizing n ds with
  | zero => exact .inl h
  | succ fuel ih =>
    have hd : ∀ c ∈ Nat.digitChar (n % 10) :: ds, c ∈ ds ∨ ∃ d < 10, c = Nat.digitChar d :=
      fun c hc => (List.mem_cons.mp hc).symm.imp_right fun h =>
        ⟨n % 10, Nat.mod_lt _ (by decide), h⟩
    rw [Nat.toDigitsCore] at h
    split at h
    · exact hd c h
    · rcases ih _ _ h with h | h
      · exact hd c h
      · exact .inr h

theorem subset_toDigitsCore (fuel n : Nat) (ds : List Char) :
    ds ⊆ Nat.toDigitsCore 10 fuel n ds := by
  induction fuel generalizing n ds with
  | zero => exact List.Subset.refl _
  | succ fuel ih =>
    rw [Nat.toDigitsCore]
    split
    · exact List.subset_cons_self _ _
    · exact (List.subset_cons_self _ _).trans (ih _ _)

/-- One more digit of `n` after the digits of `n / 10`. -/
theorem parseDigits_digitChar_cons (bound m n : Nat) (ds : List Char) (hm : m * 10 + n % 10 = n)
    (hb : n < bound) :
    parseDigits bound m (Nat.digitChar (n % 10) :: ds) = parseDigits bound n ds := by
  rw [parseDigits, toDigit_digitChar _ (Nat.mod_lt _ (by decide)), Option.some_bind, hm,
    if_pos hb]

/-- The digit loop reads a decimal rendering of `n < bound` back as `n`, and goes on from `n`. -/
theorem parseDigits_toDigitsCore (bound fuel n : Nat) (ds : List Char) (hn : n < fuel)
    (hb : n < bound) :
    parseDigits bound 0 (Nat.toDigitsCore 10 fuel n ds) = parseDigits bound n ds := by
  induction fuel generalizing n ds with
  | zero => omega
  | succ fuel ih =>
    rw [Nat.toDigitsCore]
    split
    · exact parseDigits_digitChar_cons bound 0 n ds (by omega) hb
    · rw [ih (n / 10) _ (by omega) (by omega)]
      exact parseDigits_digitChar_cons bound (n / 10) n ds (by omega) hb

/-- A string of digits skips the sign handling of `from_str_radix`. -/
theorem parseUnsigned_of_digits (bound : Nat) (cs : List Char) (hne : cs ≠ [])
    (hd : ∀ c ∈ cs, (toDigit c).isSome) : parseUnsigned bound ⟨cs⟩ = parseDigits bound 0 cs := by
  obtain ⟨c, cs, rfl⟩ := List.exists_cons_of_ne_nil hne
  have hc := hd c (List.mem_cons_self _ _)
  have hplus : c ≠ '+' := by rintro rfl; exact absurd hc (by decide)
  have hminus : c ≠ '-' := by rintro rfl; exact absurd hc (by decide)
  unfold parseUnsigned
  split <;> simp_all

/-- Every character of `n.to_string()` is a decimal digit. -/
theorem toDigit_isSome_of_mem_toDigits (n : Nat) :
    ∀ c ∈ Nat.toDigits 10 n, (toDigit c).isSome := fun c hc => by
  rcases mem_toDigitsCore _ _ _ c hc with h | ⟨d, hd, rfl⟩
  · cases h
  · rw [toDigit_digitChar d hd]; rfl

/-- Parsing for an unsigned type with values below `bound` reads `n.to_string()` back as `n`. -/
theorem parseUnsigned_toDigits (bound n : Nat) (hn : n < bound) :
    parseUnsigned bound ⟨Nat.toDigits 10 n⟩ = some n := by
  have hne : Nat.toDigits 10 n ≠ [] := by
    rw [Nat.toDigits, Nat.toDigitsCore]
    split
    · exact List.cons_ne_nil _ _
    · exact List.ne_nil_of_mem (subset_toDigitsCore _ _ _ (List.mem_singleton_self _))
  rw [parseUnsigned_of_digits _ _ hne (toDigit_isSome_of_mem_toDigits n), Nat.toDigits,
    parseDigits_toDigitsCore _ _ _ _ (Nat.lt_succ_self _) hn]
  rfl

/-- `u32` parsing reads `n.to_string()` back as `n`. -/
theorem parseUnsigned_toString (n : UInt32) :
    parseUnsigned u32Size ⟨Nat.toDigits 10 n.toNat⟩ = some n.toNat :=
  parseUnsigned_toDigits _ _ n.toNat_lt_size

/-! ## The last separator -/

theorem afterLast_eq_none_iff (sep : Char) (cs : List Char) :
    afterLast sep cs = none ↔ sep ∉ cs := by
  induction cs with
  | nil => simp [afterLast]
  | cons c cs ih =>
    rw [afterLast]
    cases h : afterLast sep cs with
    | none => by_cases hc : c = sep <;> simp_all [eq_comm]
    | some r => simp_all

theorem afterLast_append_sep (sep : Char) (pre r : List Char) (hr : sep ∉ r) :
    afterLast sep (pre ++ sep :: r) = some r := by
  induction pre with
  | nil => rw [List.nil_append, afterLast, (afterLast_eq_none_iff sep r).mpr hr, if_pos rfl]
  | cons c pre ih => rw [List.cons_append, afterLast, ih]

/-- What `afterLast` returns is what follows a `sep` with no `sep` after it. -/
theorem afterLast_eq_some (sep : Char) (cs r : List Char) (h : afterLast sep cs = some r) :
    ∃ pre, cs = pre ++ sep :: r ∧ sep ∉ r := by
  induction cs with
  | nil => cases h
  | cons c cs ih =>
    rw [afterLast] at h
    cases hcs : afterLast sep cs with
    | some r' =>
      rw [hcs, Option.some.injEq] at h
      subst h
      obtain ⟨pre, rfl, hr⟩ := ih hcs
      exact ⟨c :: pre, rfl, hr⟩
    | none =>
      by_cases hc : c = sep
      · simp only [hcs, hc, if_true, Option.some.injEq] at h
        subst h hc
        exact ⟨[], rfl, (afterLast_eq_none_iff _ _).mp hcs⟩
      · simp [hcs, hc] at h

/-- **Ordinal extraction inverts pod naming.** For every prefix `p` and every `u32` ordinal `n`,
    the ordinal of `p-n` is `n`; and an extracted ordinal is what `u32` parsing gives for the text
    after the last `-`. -/
theorem extractOrdinalFromString_inverts_pod_name :
    (∀ (p : String) (n : UInt32),
      extractOrdinalFromString (p ++ "-" ++ toString n) = some n.toNat) ∧
    ∀ (s : String) (n : Nat), extractOrdinalFromString s = some n →
      ∃ pre r, s.toList = pre ++ '-' :: r ∧ '-' ∉ r ∧ parseUnsigned u32Size ⟨r⟩ = some n := by
  refine ⟨fun p n => ?_, fun s n h => ?_⟩
  · have hs : (p ++ "-" ++ toString n).toList = p.toList ++ '-' :: Nat.toDigits 10 n.toNat := by
      simp [String.toList, toString, Nat.repr, List.asString]
    have hdash : '-' ∉ Nat.toDigits 10 n.toNat := fun hc => by
      rcases mem_toDigitsCore _ _ _ _ hc with h | ⟨d, hd, hcd⟩
      · cases h
      · revert hcd; revert d; decide
    rw [extractOrdinalFromString, hs, afterLast_append_sep _ _ _ hdash, Option.some_bind,
      parseUnsigned_toString]
  · rw [extractOrdinalFromString] at h
    cases ha : afterLast '-' s.toList with
    | none => rw [ha] at h; cases h
    | some r =>
      rw [ha, Option.some_bind] at h
      obtain ⟨pre, hs, hr⟩ := afterLast_eq_some _ _ _ ha
      exact ⟨pre, r, hs, hr, h⟩

theorem extractOrdinalFromString_inverts_pod_name_example :
    extractOrdinalFromString ("clacheless" ++ "-" ++ toString (123 : UInt32)) = some 123 ∧
      ∃ pre r, "clacheless-123".toList = pre ++ '-' :: r ∧ '-' ∉ r ∧
        parseUnsigned u32Size ⟨r⟩ = some 123 :=
  ⟨extractOrdinalFromString_inverts_pod_name.1 "clacheless" 123,
    extractOrdinalFromString_inverts_pod_name.2 "clacheless-123" 123 (by decide)⟩

/-! ## Node identity

Whatever `POD_NAME` is, the ordinal is a `u32`, so the node id `DistributedCache::new` builds,
`(now_seconds & 0xffff_ffff) << 32 | ordinal`, carries the ordinal in its low 32 bits and the start
time above them (`localNodeId_newDistributedCache`). -/

/-- The digit loop only returns values below its bound. -/
theorem parseDigits_lt (bound acc : Nat) (cs : List Char) (n : Nat) (hacc : acc < bound)
    (h : parseDigits bound acc cs = some n) : n < bound := by
  induction cs generalizing acc with
  | nil => cases h; exact hacc
  | cons c cs ih =>
    rw [parseDigits] at h
    cases hd : toDigit c with
    | none => rw [hd] at h; cases h
    | some d =>
      rw [hd, Option.some_bind] at h
      split at h
      · exact ih _ ‹_› h
      · cases h

theorem parseUnsigned_lt (bound : Nat) (src : String) (n : Nat) (hb : 0 < bound)
    (h : parseUnsigned bound src = some n) : n < bound := by
  unfold parseUnsigned at h
  split at h <;> first | cases h | exact parseDigits_lt _ _ _ _ hb h

/-- The configured ordinal is a `u32`. -/
theorem localNodeId_lt (podName : Option String) : Config.localNodeId podName < u32Size := by
  unfold Config.localNodeId
  cases h : extractOrdinalFromString (podName.getD "clacheless-0") with
  | none => decide
  | some n =>
    rw [extractOrdinalFromString] at h
    cases ha : afterLast '-' (podName.getD "clacheless-0").toList with
    | none => rw [ha] at h; cases h
    | some r =>
      rw [ha, Option.some_bind] at h
      exact parseUnsigned_lt _ _ _ (by decide) h

/-- `hi << 32 | lo` with `lo` a `u32` keeps `lo` in the low 32 bits and `hi` above them. -/
theorem shiftLeft_or_mod_div (hi lo : Nat) (hlo : lo < u32Size) :
    (hi <<< 32 ||| lo) % u32Size = lo ∧ (hi <<< 32 ||| lo) / u32Size = hi := by
  have hbit : ∀ i, 32 ≤ i → lo.testBit i = false := fun i hi =>
    Nat.testBit_lt_two_pow (Nat.lt_of_lt_of_le hlo (Nat.pow_le_pow_right (by decide) hi))
  constructor
  · refine Nat.eq_of_testBit_eq fun i => ?_
    rw [u32Size, Nat.testBit_mod_two_pow, Nat.testBit_or, Nat.testBit_shiftLeft]
    by_cases hi : i < 32
    · simp [hi, Nat.not_le.mpr hi]
    · simp [hi, hbit i (by omega)]
  · refine Nat.eq_of_testBit_eq fun i => ?_
    rw [u32Size, ← Nat.shiftRight_eq_div_pow, Nat.testBit_shiftRight, Nat.testBit_or,
      Nat.testBit_shiftLeft, hbit _ (by omega)]
    simp

/-- The node id `DistributedCache::new` builds for a `u32` ordinal holds the ordinal in the low
    32 bits and the start second, modulo `2^32`, above them. -/
theorem localNodeId_new (o ttl nowMicros : Nat) (ho : o < u32Size) :
    (DistributedCache.new o ttl nowMicros).localNodeId % u32Size = o ∧
      (DistributedCache.new o ttl nowMicros).localNodeId / u32Size =
        nowMicros / 1000000 % u32Size := by
  have hand : nowMicros / 1000000 &&& 0xffffffff = nowMicros / 1000000 % u32Size :=
    Nat.and_pow_two_sub_one_eq_mod _ 32
  show ((nowMicros / 1000000 &&& 0xffffffff) <<< 32 ||| o) % u32Size = o ∧
    ((nowMicros / 1000000 &&& 0xffffffff) <<< 32 ||| o) / u32Size = _
  rw [hand]
  exact shiftLeft_or_mod_div _ _ ho

/-- **Node identity.** The node id a replica starts with holds its configured ordinal in the low
    32 bits and its start time in seconds, modulo `2^32`, above them. -/
theorem localNodeId_newDistributedCache (podName ttl : Option String) (nowMicros : Nat) :
    (Config.newDistributedCache podName ttl nowMicros).localNodeId % u32Size =
        Config.localNodeId podName ∧
      (Config.newDistributedCache podName ttl nowMicros).localNodeId / u32Size =
        nowMicros / 1000000 % u32Size :=
  localNodeId_new _ _ _ (localNodeId_lt podName)

/-! ## Time to live -/

/-- **A TTL of `0` is accepted.** A replica configured with `CLACHELESS_TTL=0` stores every write
    with `expires_micros <= this_update_micros`; and a TTL of `18446744073710` seconds wraps to
    `448384` microseconds. -/
theorem putBytes_ttl_zero_born_expired (podName : Option String) (startMicros nowMicros : Nat)
    (k : String) (v : List UInt8) :
    Config.cacheItemTimeToLiveMicros (some "0") = 0 ∧
      (∃ ce, ((Config.newDistributedCache podName (some "0") startMicros).putBytes k v
          nowMicros).1.localCache.cache.get k = some ce ∧
        ce.expiresMicros ≤ ce.thisUpdateMicros) ∧
      Config.cacheItemTimeToLiveMicros (some "18446744073710") = 448384 := by
  have hz : Config.cacheItemTimeToLiveMicros (some "0") = 0 := by decide
  refine ⟨hz, ⟨_, (DistributedCache.get_putBytes _ k v nowMicros k).trans (if_pos rfl), ?_⟩,
    by decide⟩
  simp only [Config.newDistributedCache, DistributedCache.new, LocalCache.new, SkipMap.get_empty,
    LocalCache.lww, hz]
  exact wrappingAdd_le nowMicros 0

end Clacheless
